import Mathlib.Data.List.Infix
import DayWeave.Lib.Text

/-!
Notes of the provider's tasks.

`sanitizeTaskNotes` takes the markers of older versions out of the notes of a task, and then the
blanks at the ends of the lines. Markers are looked for with the blanks of ASCII and lines are
trimmed of all blanks of Unicode, so trimming can bring the halves of a marker together.
`sanitizeTaskNotes_iff` says that this is the only way in which a marker is left.
-/

namespace DayWeave.Google

open List
open Text (isControl isWhitespace prefix_dropWhile_iff prefix_rdropWhile_iff suffix_dropWhile_iff
  suffix_rdropWhile_iff trim)

/-- The blanks of ASCII. -/
def isAsciiWhitespace (c : Char) : Bool := c.toNat ∈ [9, 10, 12, 13, 32]

/-- Capital letters of ASCII in lower case. -/
def lower (text : List Char) : List Char := text.map Char.toLower

/-! ### Markers -/

/-- How a marker opens. -/
def markerHead : List Char := "[dayweave".toList

/-- How it goes on, after blanks. -/
def markerItem : List Char := "item:".toList

/-- A text in lower case begins with a marker. -/
def beginsMarker (text : List Char) : Bool :=
  markerHead.isPrefixOf text &&
    markerItem.isPrefixOf ((text.drop markerHead.length).dropWhile isAsciiWhitespace)

/-- Where the first marker of a text begins. The source counts bytes. -/
def legacyTaskMarkerStart (value : List Char) : Option ℕ :=
  (lower value).tails.findIdx? beginsMarker

/-- Takes markers out until none is left; each goes to its closing bracket or, if it has none,
to the end of the text. -/
def stripMarkers : ℕ → List Char → List Char
  | 0, normalized => normalized
  | fuel + 1, normalized =>
    match legacyTaskMarkerStart normalized with
    | none => normalized
    | some start => stripMarkers fuel
        (normalized.take start ++ ((normalized.drop start).dropWhile (· ≠ ']')).drop 1)

/-! ### Notes -/

/-- Puts one blank for each run of control characters other than line feeds; `run` says whether
the character before was one. -/
def normalizeControls (run : Bool) : List Char → List Char
  | [] => []
  | c :: notes =>
    if c = '\n' then c :: normalizeControls false notes
    else if isControl c then
      if run then normalizeControls true notes else ' ' :: normalizeControls true notes
    else c :: normalizeControls false notes

/-- The text without markers; each round makes it shorter. -/
def withoutMarkers (notes : List Char) : List Char :=
  let normalized := normalizeControls false notes
  stripMarkers normalized.length normalized

/-- The lines that are not blank, trimmed. No carriage return is left at the end of a line, and
a blank line at the end makes no difference. -/
def retainedLines (text : List Char) : List (List Char) :=
  ((text.splitOn '\n').map trim).filter (· ≠ [])

/-- The notes without markers, and whether there were any, so that there was a first round. -/
def sanitizeTaskNotes : Option (List Char) → Option (List Char) × Bool
  | none => (none, false)
  | some notes =>
    let retained := trim (['\n'].intercalate (retainedLines (withoutMarkers notes)))
    (if retained = [] then none else some retained,
      (legacyTaskMarkerStart (normalizeControls false notes)).isSome)

/-! ### Lines -/

section

variable {c : Char} {run : Bool} {line text notes : List Char} {lines : List (List Char)}

lemma eq_newline_of_mem_normalizeControls (h : c ∈ normalizeControls run notes)
    (hc : isControl c) : c = '\n' := by
  induction notes generalizing run with
  | nil => cases h
  | cons d notes ih =>
    rw [normalizeControls] at h
    split_ifs at h with hfeed hctl hrun
    · grind
    · exact ih h
    · exact ih ((mem_cons.mp h).resolve_left fun hblank => absurd (hblank ▸ hc) (by decide))
    · grind

lemma normalizeControls_eq_self (h : ∀ c ∈ notes, isControl c → c = '\n') :
    normalizeControls run notes = notes := by
  induction notes generalizing run with
  | nil => rfl
  | cons d notes ih =>
    obtain ⟨hd, hrest⟩ := forall_mem_cons.mp h
    rw [normalizeControls, ih hrest]
    by_cases hfeed : d = '\n'
    · rw [if_pos hfeed]
    · rw [if_neg hfeed, if_neg (mt hd hfeed)]

/-- A line of clean notes: it is not empty, does not begin or end with a blank and has no control
characters. -/
structure IsLine (line : List Char) : Prop where
  ne_nil : line ≠ []
  head : ∀ c ∈ line.head?, ¬ isWhitespace c
  last : ∀ c ∈ line.getLast?, ¬ isWhitespace c
  plain : ∀ c ∈ line, ¬ isControl c

/-- Clean notes: lines with line feeds between them. -/
def IsClean (text : List Char) : Prop :=
  ∃ lines ≠ [], text = ['\n'].intercalate lines ∧ ∀ line ∈ lines, IsLine line

lemma mem_splitOn (h : line ∈ text.splitOn c) : c ∉ line ∧ line <:+: text := by
  induction text using Text.lines_induction c with
  | line l hl =>
    rw [splitOn_eq_singleton hl, mem_singleton] at h
    exact ⟨h ▸ hl, h ▸ infix_rfl⟩
  | more l text hl ih =>
    rw [splitOn_append_cons_self_of_not_mem hl, mem_cons] at h
    rcases h with rfl | h
    · exact ⟨hl, (prefix_append ..).isInfix⟩
    · obtain ⟨hnot, hinf⟩ := ih h
      exact ⟨hnot, hinf.trans ((suffix_cons ..).trans (suffix_append ..)).isInfix⟩

lemma isLine_of_mem_retainedLines (hctl : ∀ c ∈ text, isControl c → c = '\n')
    (h : line ∈ retainedLines text) : IsLine line ∧ line <:+: text := by
  obtain ⟨hmem, hne⟩ := mem_filter.mp h
  obtain ⟨x, hx, rfl⟩ := mem_map.mp hmem
  obtain ⟨hnot, hinf⟩ := mem_splitOn hx
  have hpre : trim x <+: x.dropWhile isWhitespace := rdropWhile_prefix ..
  have htrim : trim x <:+: x := hpre.isInfix.trans (dropWhile_suffix _).isInfix
  refine ⟨⟨of_decide_eq_true hne, fun c hc => ?_, fun c hc => ?_, fun c hc hctl' => ?_⟩,
    htrim.trans hinf⟩
  · obtain ⟨r, hr⟩ := hpre
    have hhead := head?_dropWhile_not isWhitespace x
    rw [← hr, head?_append, Option.mem_def.mp hc] at hhead
    exact Bool.eq_false_iff.mp hhead
  · obtain ⟨hne, rfl⟩ := mem_getLast?_eq_getLast hc
    exact rdropWhile_last_not _ _ hne
  · exact hnot (hctl c (hinf.mem (htrim.mem hc)) hctl' ▸ htrim.mem hc)

lemma trim_eq_self (hhead : ∀ c ∈ text.head?, ¬ isWhitespace c)
    (hlast : ∀ c ∈ text.getLast?, ¬ isWhitespace c) : trim text = text := by
  cases text with
  | nil => rfl
  | cons c text =>
    rw [trim, dropWhile_cons_of_neg (hhead c rfl), rdropWhile_eq_self_iff]
    exact fun hne => hlast _ (getLast?_eq_some_getLast hne)

/-- Joined lines are cut into the same lines again. -/
lemma retainedLines_intercalate (hne : lines ≠ []) (h : ∀ line ∈ lines, IsLine line) :
    retainedLines (['\n'].intercalate lines) = lines := by
  rw [retainedLines,
    splitOn_intercalate _ (fun line hl hfeed => (h line hl).plain _ hfeed (by decide)) hne,
    map_congr_left fun line hl => trim_eq_self (h line hl).head (h line hl).last, map_id',
    filter_eq_self]
  exact fun line hl => decide_eq_true (h line hl).ne_nil

lemma trim_intercalate (h : ∀ line ∈ lines, IsLine line) :
    trim (['\n'].intercalate lines) = ['\n'].intercalate lines ∧
      (['\n'].intercalate lines = [] ↔ lines = []) := by
  cases lines with
  | nil => exact ⟨rfl, iff_of_true rfl rfl⟩
  | cons first rest =>
    have hfst := h first mem_cons_self
    rw [Text.intercalate_cons]
    refine ⟨trim_eq_self ?_ ?_, by simp [hfst.ne_nil]⟩
    · rw [head?_append_of_ne_nil _ hfst.ne_nil]
      exact hfst.head
    · cases rest using List.reverseRecOn with
      | nil => simpa using hfst.last
      | append_singleton rest last =>
        have hlast := h last (by simp)
        rw [flatMap_append, flatMap_singleton, ← append_assoc, ← singleton_append,
          ← append_assoc, getLast?_append_of_ne_nil _ hlast.ne_nil]
        exact hlast.last

/-! ### Where markers are -/

variable {l r : List Char} {fuel : ℕ}

/-- A text in lower case contains a marker. -/
def Marked (text : List Char) : Prop :=
  ∃ a w b, text = a ++ markerHead ++ (w ++ (markerItem ++ b)) ∧ ∀ c ∈ w, isAsciiWhitespace c

lemma legacyTaskMarkerStart_eq_none :
    legacyTaskMarkerStart text = none ↔ ¬ Marked (lower text) := by
  simp only [legacyTaskMarkerStart, findIdx?_eq_none_iff, mem_tails, beginsMarker,
    ← Bool.not_eq_true, Bool.and_eq_true, isPrefixOf_iff_prefix]
  constructor
  · rintro h ⟨a, w, b, heq, hw⟩
    refine h _ ⟨a, (heq.trans (append_assoc ..)).symm⟩ ⟨prefix_append .., ?_⟩
    rw [drop_left, dropWhile_append_of_pos hw]
    exact prefix_append markerItem b
  · rintro h s ⟨a, ha⟩ ⟨⟨r, rfl⟩, b, hb⟩
    rw [drop_left] at hb
    refine h ⟨a, r.takeWhile isAsciiWhitespace, b, ?_, fun c => mem_takeWhile_imp⟩
    rw [hb, takeWhile_append_dropWhile, append_assoc, ha]

lemma Marked.mono (h : l <:+: r) (hl : Marked l) : Marked r := by
  obtain ⟨x, y, rfl⟩ := h
  obtain ⟨a, w, b, rfl, hw⟩ := hl
  exact ⟨x ++ a, w, b ++ y, by simp only [append_assoc], hw⟩

/-- A line feed within a text, where the lines do not end and begin with blanks. -/
lemma marked_append_newline (hlast : ∀ c ∈ l.getLast?, ¬ isAsciiWhitespace c)
    (hhead : ∀ c ∈ r.head?, ¬ isAsciiWhitespace c) :
    Marked (l ++ '\n' :: r) ↔ Marked l ∨ Marked r ∨ markerHead <:+ l ∧ markerItem <+: r := by
  -- nothing but the line feed is between the two halves
  have hcut : ∀ {w b}, '\n' :: r = w ++ (markerItem ++ b) → (∀ c ∈ w, isAsciiWhitespace c) →
      markerItem <+: r := by
    rintro (_ | ⟨c, w⟩) b heq hw
    · exact absurd heq (by simp [markerItem])
    · obtain ⟨rfl, rfl⟩ := cons.inj heq
      cases w with
      | nil => exact prefix_append ..
      | cons c w => exact absurd (hw c (by simp)) (hhead c rfl)
  constructor
  · rintro ⟨a, w, b, heq, hw⟩
    rcases append_eq_append_iff.mp heq with ⟨x, hx, hr⟩ | ⟨x, rfl, hr⟩
    · cases x with
      | nil => exact .inr (.inr ⟨⟨a, by simpa using hx⟩, hcut hr hw⟩)
      | cons c x =>
        obtain ⟨rfl, rfl⟩ := cons.inj hr
        obtain ⟨y, rfl⟩ := Text.suffix_of_notMem (by decide) ⟨a, hx⟩
        exact .inr (.inl ⟨y, w, b, rfl, hw⟩)
    · rcases append_eq_append_iff.mp hr with ⟨y, rfl, hy⟩ | ⟨y, rfl, hy⟩
      · obtain ⟨z, rfl⟩ := Text.prefix_of_notMem (by decide) ⟨b, hy⟩
        exact .inl ⟨a, w, z, rfl, hw⟩
      · cases x using List.reverseRecOn with
        | nil => exact .inr (.inr ⟨⟨a, by simp⟩, hcut hy hw⟩)
        | append_singleton x c => exact absurd (hw c (by simp)) (hlast c (by simp))
  · rintro (h | h | ⟨⟨a, rfl⟩, b, rfl⟩)
    · exact h.mono (prefix_append ..).isInfix
    · exact h.mono ((suffix_cons ..).trans (suffix_append ..)).isInfix
    · exact ⟨a, ['\n'], b, rfl, forall_mem_singleton.mpr rfl⟩

/-- Lower case only changes capital letters, to small ones. -/
lemma toLower_cases (c : Char) : c.toLower = c ∨
    (65 ≤ c.toNat ∧ c.toNat ≤ 90) ∧ 97 ≤ c.toLower.toNat ∧ c.toLower.toNat ≤ 122 := by
  unfold Char.toLower
  split_ifs with hletter
  · have hlow : 65 ≤ c.val.toNat := hletter.1
    have hhigh : c.val.toNat ≤ 90 := hletter.2
    have hval : (c.val + ('a'.val - 'A'.val)).toNat = (c.val.toNat + 32) % 2 ^ 32 :=
      UInt32.toNat_add ..
    rw [Char.toNat, Char.toNat, hval]
    omega
  · exact .inl rfl

lemma isWhitespace_toLower (c : Char) : isWhitespace c.toLower = isWhitespace c := by
  have hletter : ∀ d : Char, 65 ≤ d.toNat → d.toNat ≤ 122 → isWhitespace d = false := by
    intro d hd hd'
    simp [isWhitespace]
    omega
  rcases toLower_cases c with h | ⟨⟨hlow, hhigh⟩, hlow', hhigh'⟩
  · rw [h]
  · rw [hletter c hlow (by omega), hletter _ (by omega) hhigh']

lemma newline_mem_lower : '\n' ∈ lower l ↔ '\n' ∈ l := by
  refine ⟨fun h => ?_, fun h => mem_map.mpr ⟨_, h, by decide⟩⟩
  obtain ⟨c, hc, heq⟩ := mem_map.mp h
  rcases toLower_cases c with hsame | ⟨-, hlow, -⟩
  · rwa [← heq, hsame]
  · rw [heq] at hlow
    exact absurd hlow (by decide)

lemma not_isAsciiWhitespace_toLower {o : Option Char} (h : ∀ c ∈ o, ¬ isWhitespace c) :
    ∀ c ∈ o.map Char.toLower, ¬ isAsciiWhitespace c := by
  intro d hd
  obtain ⟨c, hc, rfl⟩ := Option.map_eq_some_iff.mp hd
  refine mt (fun hblank => ?_) (h c hc)
  simp only [isAsciiWhitespace, mem_cons, not_mem_nil, or_false, decide_eq_true_eq] at hblank
  rw [← isWhitespace_toLower, isWhitespace]
  rcases hblank with h | h | h | h | h <;> rw [h] <;> rfl

/-! ### Hidden markers -/

/-- The two halves of a marker stand in a text with only blanks of Unicode between them, and a line
feed among these. -/
def HidesMarker (text : List Char) : Prop :=
  ∃ a w b, lower text = a ++ markerHead ++ (w ++ (markerItem ++ b)) ∧
    (∀ c ∈ w, isWhitespace c) ∧ '\n' ∈ w

lemma lower_dropWhile (l : List Char) :
    lower (l.dropWhile isWhitespace) = (lower l).dropWhile isWhitespace := by
  rw [lower, lower, dropWhile_map]
  congr 2
  funext c
  exact (isWhitespace_toLower c).symm

lemma lower_trim (l : List Char) : lower (trim l) = trim (lower l) := by
  have hreverse : ∀ l : List Char, (lower l).reverse = lower l.reverse := fun l => map_reverse.symm
  rw [trim, trim, ← lower_dropWhile, rdropWhile, rdropWhile, hreverse, ← lower_dropWhile, hreverse]

/-- The first half of a marker ends a line that is trimmed. -/
lemma markerHead_suffix_iff : markerHead <:+ lower (trim l) ↔
    ∃ a w, lower l = a ++ (markerHead ++ w) ∧ ∀ c ∈ w, isWhitespace c := by
  rw [lower_trim, trim, suffix_rdropWhile_iff (by decide) (by decide)]
  constructor
  · rintro ⟨w, h, hw⟩
    obtain ⟨a, ha⟩ := (suffix_dropWhile_iff (by decide) (by decide) w).mp h
    exact ⟨a, w, ha.symm, hw⟩
  · rintro ⟨a, w, h, hw⟩
    exact ⟨w, (suffix_dropWhile_iff (by decide) (by decide) w).mpr ⟨a, h.symm⟩, hw⟩

/-- The second half begins a text after its blanks. -/
lemma markerItem_prefix_iff : markerItem <+: lower (text.dropWhile isWhitespace) ↔
    ∃ w b, lower text = w ++ (markerItem ++ b) ∧ ∀ c ∈ w, isWhitespace c := by
  rw [lower_dropWhile, prefix_dropWhile_iff (by decide) (by decide)]
  constructor
  · rintro ⟨w, ⟨b, hb⟩, hw⟩
    exact ⟨w, b, by rw [← hb, append_assoc], hw⟩
  · rintro ⟨w, b, h, hw⟩
    exact ⟨w, ⟨b, by rw [h, append_assoc]⟩, hw⟩

/-- A marker is hidden at the first line feed or after it. -/
lemma hidesMarker_append_newline (hl : '\n' ∉ l) : HidesMarker (l ++ '\n' :: text) ↔
    (markerHead <:+ lower (trim l) ∧ markerItem <+: lower (text.dropWhile isWhitespace)) ∨
      HidesMarker text := by
  have hcut : lower (l ++ '\n' :: text) = lower l ++ '\n' :: lower text := map_append
  rw [HidesMarker, hcut, markerHead_suffix_iff, markerItem_prefix_iff]
  constructor
  · rintro ⟨a, w, b, heq, hw, hfeed⟩
    by_cases ha : '\n' ∈ a
    · obtain ⟨a', a'', rfl, ha'⟩ := eq_append_cons_of_mem ha
      simp only [append_assoc, cons_append] at heq
      obtain ⟨-, htext⟩ := Text.append_cons_inj (mt newline_mem_lower.mp hl) ha' heq
      exact .inr ⟨a'', w, b, by rw [htext, append_assoc], hw, hfeed⟩
    · obtain ⟨w', w'', rfl, hw'⟩ := eq_append_cons_of_mem hfeed
      have heq' : lower l ++ '\n' :: lower text =
          (a ++ (markerHead ++ w')) ++ '\n' :: (w'' ++ (markerItem ++ b)) := by
        simpa only [append_assoc, cons_append] using heq
      obtain ⟨hline, htext⟩ := Text.append_cons_inj (mt newline_mem_lower.mp hl) (by
        simp only [mem_append, not_or]
        exact ⟨ha, by decide, hw'⟩) heq'
      exact .inl ⟨⟨a, w', hline, fun c hc => hw c (by simp [hc])⟩,
        w'', b, htext, fun c hc => hw c (by simp [hc])⟩
  · rintro (⟨⟨a, w, hline, hw⟩, w', b, htext, hw'⟩ | ⟨a, w, b, htext, hw, hfeed⟩)
    · refine ⟨a, w ++ '\n' :: w', b, ?_, ?_, by simp⟩
      · rw [hline, htext]
        simp only [append_assoc, cons_append]
      · exact forall_mem_append.mpr ⟨hw, forall_mem_cons.mpr ⟨by decide, hw'⟩⟩
    · exact ⟨lower l ++ '\n' :: a, w, b, by simp [htext], hw, hfeed⟩

lemma trim_eq_nil : trim l = [] ↔ l.dropWhile isWhitespace = [] := by
  rw [trim, rdropWhile_eq_nil_iff, ← dropWhile_eq_nil_iff, dropWhile_idempotent]

lemma retainedLines_line (hl : '\n' ∉ l) :
    retainedLines l = if trim l = [] then [] else [trim l] := by
  rw [retainedLines, splitOn_eq_singleton hl, map_singleton, filter_singleton]
  split_ifs <;> simp_all

lemma retainedLines_append_newline (hl : '\n' ∉ l) : retainedLines (l ++ '\n' :: text) =
    if trim l = [] then retainedLines text else trim l :: retainedLines text := by
  rw [retainedLines, splitOn_append_cons_self_of_not_mem hl, map_cons, filter_cons]
  split_ifs <;> simp_all [retainedLines]

lemma markerItem_prefix_trim :
    markerItem <+: lower (trim l) ↔ markerItem <+: lower (l.dropWhile isWhitespace) := by
  rw [lower_trim, trim, prefix_rdropWhile_iff (by decide) (by decide), lower_dropWhile]

/-- The lines that are kept begin like the text after its blanks. -/
lemma markerItem_prefix_retainedLines (text : List Char) :
    markerItem <+: lower (['\n'].intercalate (retainedLines text)) ↔
      markerItem <+: lower (text.dropWhile isWhitespace) := by
  induction text using Text.lines_induction '\n' with
  | line l hl =>
    rw [retainedLines_line hl]
    split_ifs with hblank
    · rw [trim_eq_nil.mp hblank]
      rfl
    · simpa using markerItem_prefix_trim
  | more l text hl ih =>
    rw [retainedLines_append_newline hl]
    split_ifs with hblank
    · rw [ih, dropWhile_append, trim_eq_nil.mp hblank]
      rfl
    · rw [dropWhile_append, if_neg (by simpa using mt trim_eq_nil.mpr hblank), Text.intercalate_cons,
        lower, lower, map_append, map_append]
      -- on both sides the half is within the first line
      trans markerItem <+: lower (trim l)
      · refine ⟨fun h => ?_, fun h => h.trans (prefix_append ..)⟩
        cases hrest : retainedLines text with
        | nil => simpa [hrest, lower] using h
        | cons _ lines => exact Text.prefix_of_notMem (by decide) (hrest ▸ h)
      · rw [markerItem_prefix_trim]
        exact ⟨fun h => h.trans (prefix_append ..), Text.prefix_of_notMem (by decide)⟩

/-- Trimming the lines puts a marker together exactly if the text hides one. -/
lemma legacyTaskMarkerStart_retainedLines
    (h : ∀ line ∈ retainedLines text, IsLine line ∧ legacyTaskMarkerStart line = none) :
    legacyTaskMarkerStart (['\n'].intercalate (retainedLines text)) = none ↔
      ¬ HidesMarker text := by
  induction text using Text.lines_induction '\n' with
  | line l hl =>
    refine iff_of_true ?_ ?_
    · rw [retainedLines_line hl] at h ⊢
      split_ifs at h ⊢
      · decide
      · simpa using (h _ (mem_singleton_self _)).2
    · rintro ⟨a, w, b, heq, -, hfeed⟩
      exact hl (newline_mem_lower.mp (by rw [heq]; simp [hfeed]))
  | more l text hl ih =>
    rw [hidesMarker_append_newline hl, not_or]
    rw [retainedLines_append_newline hl] at h ⊢
    split_ifs at h ⊢ with hblank
    · rw [ih h, hblank]
      exact ⟨fun h => ⟨fun h' => absurd h'.1 (by decide), h⟩, And.right⟩
    · obtain ⟨⟨hline, hnone⟩, hlns⟩ := forall_mem_cons.mp h
      rw [← ih hlns, ← markerItem_prefix_retainedLines]
      cases hrest : retainedLines text with
      | nil =>
        exact iff_of_true (by simpa using hnone) ⟨fun h => absurd h.2 (by decide), by decide⟩
      | cons next lines =>
        have hnext := (hlns next (hrest ▸ mem_cons_self)).1
        simp only [legacyTaskMarkerStart_eq_none] at hnone ⊢
        rw [intercalate_cons_cons, append_assoc]
        have hcut := @marked_append_newline (lower (trim l))
          (lower (['\n'].intercalate (next :: lines))) ?_ ?_
        · rw [lower, map_append]
          refine (not_congr hcut).trans ?_
          tauto
        · rw [lower, getLast?_map]
          exact not_isAsciiWhitespace_toLower hline.last
        · rw [Text.intercalate_cons, lower, head?_map, head?_append_of_ne_nil _ hnext.ne_nil]
          exact not_isAsciiWhitespace_toLower hnext.head

/-! ### Taking markers out -/

/-- One round takes characters out. -/
lemma take_append_sublist {start : ℕ} (h : legacyTaskMarkerStart text = some start) :
    text.take start ++ ((text.drop start).dropWhile (· ≠ ']')).drop 1 <+ text ∧
      (text.take start ++ ((text.drop start).dropWhile (· ≠ ']')).drop 1).length <
        text.length := by
  obtain ⟨hlt, hbeg, -⟩ := findIdx?_eq_some_iff_getElem.mp h
  rw [length_tails, lower, length_map] at hlt
  have hne : start ≠ text.length := by
    rintro rfl
    rw [getElem_tails, drop_of_length_le (by rw [lower, length_map])] at hbeg
    exact absurd hbeg (by decide)
  have hrest := dropWhile_sublist (· ≠ ']') (l := text.drop start)
  have hlen := hrest.length_le
  constructor
  · conv_rhs => rw [← take_append_drop start text]
    exact (Sublist.refl _).append ((drop_sublist ..).trans hrest)
  · rw [length_append, length_take, length_drop]
    rw [length_drop] at hlen
    omega

/-- With a round for each character no marker is left. -/
lemma stripMarkers_spec (h : text.length ≤ fuel) :
    stripMarkers fuel text <+ text ∧ legacyTaskMarkerStart (stripMarkers fuel text) = none := by
  induction fuel generalizing text with
  | zero =>
    rw [stripMarkers, length_eq_zero_iff.mp (Nat.le_zero.mp h)]
    exact ⟨Sublist.refl _, by decide⟩
  | succ fuel ih =>
    rw [stripMarkers]
    split
    · next hnone => exact ⟨Sublist.refl _, hnone⟩
    · next start hst =>
      obtain ⟨hsub, hlt⟩ := take_append_sublist hst
      obtain ⟨hsub', hnone⟩ := ih (Nat.lt_succ_iff.mp (hlt.trans_le h))
      exact ⟨hsub'.trans hsub, hnone⟩

lemma isLine_of_mem_withoutMarkers {notes line : List Char}
    (h : line ∈ retainedLines (withoutMarkers notes)) :
    IsLine line ∧ legacyTaskMarkerStart line = none := by
  obtain ⟨hsub, hnone⟩ := stripMarkers_spec (le_refl (normalizeControls false notes).length)
  obtain ⟨hline, hinf⟩ := isLine_of_mem_retainedLines (fun c hc =>
    eq_newline_of_mem_normalizeControls (hsub.mem hc)) h
  rw [legacyTaskMarkerStart_eq_none] at hnone ⊢
  exact ⟨hline, mt (Marked.mono (hinf.map _)) hnone⟩

/-- Clean notes are returned as they are, unless there is a marker in them. -/
lemma sanitizeTaskNotes_intercalate (hne : lines ≠ []) (h : ∀ line ∈ lines, IsLine line) :
    sanitizeTaskNotes (some (['\n'].intercalate lines)) =
        (some (['\n'].intercalate lines), false) ↔
      legacyTaskMarkerStart (['\n'].intercalate lines) = none := by
  have hctl : normalizeControls false (['\n'].intercalate lines) = ['\n'].intercalate lines := by
    refine normalizeControls_eq_self fun c hc hctl => ?_
    obtain ⟨first, rest, rfl⟩ := exists_cons_of_ne_nil hne
    rw [Text.intercalate_cons, mem_append, mem_flatMap] at hc
    rcases hc with hc | ⟨line, hl, hc⟩
    · exact absurd hctl ((h first mem_cons_self).plain c hc)
    · exact (mem_cons.mp hc).resolve_right fun hc =>
        (h line (mem_cons_of_mem _ hl)).plain c hc hctl
  refine ⟨fun heq => ?_, fun hnone => ?_⟩
  · have hflag := (Prod.mk.inj heq).2
    rwa [hctl, Option.isSome_eq_false_iff, Option.isNone_iff_eq_none] at hflag
  · have hstrip : withoutMarkers (['\n'].intercalate lines) = ['\n'].intercalate lines := by
      rw [withoutMarkers, hctl]
      cases (['\n'].intercalate lines).length with
      | zero => rfl
      | succ n => rw [stripMarkers, hnone]
    obtain ⟨htrim, hnil⟩ := trim_intercalate h
    rw [sanitizeTaskNotes, hstrip, hctl, retainedLines_intercalate hne h, htrim, hnone,
      if_neg (mt hnil.mp hne)]
    rfl

/-- **Notes are clean but for markers that trimming puts together.** The notes that are returned
are trimmed lines without control characters. They contain no marker, and are returned as they
are when they are sanitized again, exactly if the text with the markers taken out, before its
lines are trimmed, hides none: nowhere are there the two halves of a marker with only blanks
between them and a line feed among these. -/
theorem sanitizeTaskNotes_iff (notes : List Char) :
    (∀ text ∈ (sanitizeTaskNotes (some notes)).1, IsClean text) ∧
    ((∀ text ∈ (sanitizeTaskNotes (some notes)).1, legacyTaskMarkerStart text = none) ↔
      ¬ HidesMarker (withoutMarkers notes)) ∧
    (sanitizeTaskNotes (sanitizeTaskNotes (some notes)).1 =
        ((sanitizeTaskNotes (some notes)).1, false) ↔
      ¬ HidesMarker (withoutMarkers notes)) := by
  have hlines line := @isLine_of_mem_withoutMarkers notes line
  have hline line hl := (hlines line hl).1
  obtain ⟨htrim, hnil⟩ := trim_intercalate hline
  rw [← legacyTaskMarkerStart_retainedLines hlines]
  simp only [sanitizeTaskNotes, htrim, hnil]
  split_ifs with hempty
  · rw [hempty]
    exact ⟨by simp, iff_of_true (by simp) (by decide), iff_of_true rfl (by decide)⟩
  · simp only [Option.mem_def, Option.some.injEq, forall_eq', true_and]
    exact ⟨⟨_, hempty, rfl, hline⟩, sanitizeTaskNotes_intercalate hempty hline⟩

/-- A blank that is not of ASCII keeps the halves of a marker apart until the lines are
trimmed. -/
theorem trim_joins_marker :
    sanitizeTaskNotes (some "[dayweave\u00a0\nitem:x]".toList) =
        (some "[dayweave\nitem:x]".toList, false) ∧
      legacyTaskMarkerStart "[dayweave\nitem:x]".toList = some 0 ∧
      sanitizeTaskNotes (some "[dayweave\nitem:x]".toList) = (none, true) := by
  decide +kernel

end

end DayWeave.Google
