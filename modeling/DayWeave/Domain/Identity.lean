import Mathlib.Algebra.Group.Nat.Defs
import Mathlib.Data.Finset.Card
import DayWeave.Lib.Text
import DayWeave.Time

/-!
Identifiers and the text predicates of the domain.

Every entity is named by a 128-bit UUID; these are ordered as numbers. The name-based derivation
of identifiers and the digests of approvals come from libraries and are parameters of the model
(`Externals`).
-/

open Std

namespace DayWeave

/-- A 128-bit universally unique identifier. -/
structure Uuid where
  bits : Fin (2 ^ 128)
deriving DecidableEq

namespace Uuid

instance : Ord Uuid := ⟨compareOn Uuid.bits⟩

instance : TransOrd Uuid := inferInstanceAs (TransCmp (compareOn Uuid.bits))

instance : LawfulEqOrd Uuid :=
  lawfulEqCmp_compareOn fun a b h => by cases a; cases b; cases h; rfl

/-- The identifier with the numeric value `n`. -/
def ofNat (n : ℕ) : Uuid := ⟨Fin.ofNat _ n⟩

/-- Whether all bits are zero. -/
def isNil (u : Uuid) : Bool := u.bits.val == 0

/-- The sixteen bytes, most significant first. -/
def asBytes (u : Uuid) : List UInt8 :=
  (List.range 16).map fun i => UInt8.ofNat (u.bits.val / 256 ^ (15 - i))

/-- The hexadecimal digits from position `i` on, `n` of them. -/
def hexDigits (u : Uuid) (i n : ℕ) : String :=
  String.ofList ((List.range n).map fun k => Nat.digitChar (u.bits.val / 16 ^ (31 - (i + k)) % 16))

/-- The hyphenated lower-case text. -/
def toText (u : Uuid) : String :=
  u.hexDigits 0 8 ++ "-" ++ u.hexDigits 8 4 ++ "-" ++ u.hexDigits 12 4 ++ "-" ++
    u.hexDigits 16 4 ++ "-" ++ u.hexDigits 20 12

end Uuid

/-- The identifier of a work item. -/
structure ItemId where
  uuid : Uuid
deriving DecidableEq

namespace ItemId

instance : Ord ItemId := ⟨compareOn ItemId.uuid⟩

instance : TransOrd ItemId := inferInstanceAs (TransCmp (compareOn ItemId.uuid))

instance : LawfulEqOrd ItemId :=
  lawfulEqCmp_compareOn fun a b h => by cases a; cases b; cases h; rfl

def toText (i : ItemId) : String := i.uuid.toText

end ItemId

/-- The identifier of one occurrence of a recurring item. -/
structure OccurrenceId where
  uuid : Uuid
deriving DecidableEq

namespace OccurrenceId

instance : Ord OccurrenceId := ⟨compareOn OccurrenceId.uuid⟩

instance : TransOrd OccurrenceId := inferInstanceAs (TransCmp (compareOn OccurrenceId.uuid))

instance : LawfulEqOrd OccurrenceId :=
  lawfulEqCmp_compareOn fun a b h => by cases a; cases b; cases h; rfl

def toText (i : OccurrenceId) : String := i.uuid.toText

end OccurrenceId

/-- The debug text of an optional occurrence identifier. -/
def occurrenceDebug : Option OccurrenceId → String
  | none => "None"
  | some id => "Some(OccurrenceId(" ++ id.toText ++ "))"

/-- The public name of a unit of work: an item, or one occurrence of a recurring
item. -/
structure WorkIdentity where
  itemId : ItemId
  occurrenceId : Option OccurrenceId
deriving DecidableEq

namespace WorkIdentity

instance : Ord WorkIdentity :=
  ⟨compareLex (compareOn WorkIdentity.itemId) (compareOn WorkIdentity.occurrenceId)⟩

instance : TransOrd WorkIdentity :=
  inferInstanceAs (TransCmp
    (compareLex (compareOn WorkIdentity.itemId) (compareOn WorkIdentity.occurrenceId)))

instance : LawfulEqOrd WorkIdentity :=
  lawfulEqCmp_compareLex fun a b h h' => by cases a; cases b; cases h; cases h'; rfl

end WorkIdentity

/-- Whether nothing is left of a text after trimming it. -/
def isBlank (s : String) : Bool := s.toList.all Text.isWhitespace

def trim (s : String) : String := String.ofList (Text.trim s.toList)

end DayWeave
