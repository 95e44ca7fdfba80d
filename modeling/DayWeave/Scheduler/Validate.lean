import DayWeave.Recurrence.Lifecycle
import DayWeave.Scheduler.Slots

/-!
The checks of a planning request. They run twice: on the request as it came in, and
on the request after recurrences are materialised and execution evidence is applied.
-/

open Std

namespace DayWeave

open Except (bind_eq_ok checkAll require require_eq_ok)

inductive ScheduleError where
  | invalidHorizon
  | invalidGranularity
  | duplicateItem (id : ItemId)
  | invalidItem (itemId : ItemId) (message : String)
  | invalidWindow (owner : String)
  | missingPreviousItem (id : ItemId)
  | invalidHierarchy (message : String)
  | invalidRecurrence (message : String)
  | invalidOccurrenceLifecycle (error : OccurrenceLifecycleError)
  | conflictEvidenceLimit
deriving DecidableEq

/-- A failed check of an item, with the text of the failure. -/
def invalidItemOf (itemId : ItemId) : Except String Unit → Except ScheduleError Unit
  | .ok () => .ok ()
  | .error message => .error (.invalidItem itemId message)

@[simp] lemma invalidItemOf_eq_ok {itemId : ItemId} {x : Except String Unit} {w : Unit} :
    invalidItemOf itemId x = .ok w ↔ x = .ok () := by
  cases x <;> simp [invalidItemOf]

variable (children : ChildMap) (item : WorkItem) (assignment : PreviousAssignment) {w : Unit}
  {request : PlanRequest}

def validateConstraints : Except ScheduleError Unit := do
  let constraints := item.constraints
  require (constraints.occurrenceWindow.all fun window => window.start < window.finish)
    (.invalidItem item.id "recurrence occurrence window is empty")
  require (constraints.preferredAbsoluteWindows.all
      fun window => window.value.start < window.value.finish)
    (.invalidItem item.id "preferred window is empty")
  require (constraints.forbiddenWindows.all fun window => window.value.start < window.value.finish)
    (.invalidItem item.id "forbidden window is empty")
  require (constraints.preferredDailyWindows.all fun window =>
      window.value.startMinute < 1440 ∧ window.value.endMinute ≤ 1440 ∧
        window.value.startMinute ≠ window.value.endMinute)
    (.invalidItem item.id "daily window minutes must describe a non-empty day interval")
  require (constraints.buffers.strength = none ∨
      ¬ (constraints.buffers.before.isZero ∧ constraints.buffers.after.isZero))
    (.invalidItem item.id "buffer strength requires a non-zero before or after buffer")
  checkAll (fun dependency : Dependency =>
    invalidItemOf item.id (dependency.validate (some item.id))) constraints.dependencies

def validateDuration : Except ScheduleError Unit :=
  match item.duration with
  | some duration => invalidItemOf item.id duration.validate
  | none => .ok ()

def validateEvent : Except ScheduleError Unit :=
  match item.kind with
  | .calendarEvent event =>
    require (event.start < event.finish)
      (.invalidItem item.id "calendar event end must follow start")
  | _ => .ok ()

def validateItem : Except ScheduleError Unit := do
  invalidItemOf item.id item.priority.validate
  invalidItemOf item.id item.splitPolicy.validate
  validateDuration item
  require (¬ isBlank item.title) (.invalidItem item.id "title cannot be empty")
  validateEvent item
  validateConstraints item

/-- The items, checked in order; no identifier appears twice. -/
def validateItems (seen : Finset ItemId) : List WorkItem → Except ScheduleError Unit
  | [] => .ok ()
  | item :: rest => do
    require (item.id ∉ seen) (.duplicateItem item.id)
    validateItem item
    validateItems (insert item.id seen) rest

/-- Whether an item is work that can be executed. -/
def isExecutable : Bool :=
  ¬ item.kind.isCalendarEvent ∧ ¬ item.status.isTerminal ∧ item.status ≠ .blocked ∧
    item.occupiesTime (hasChildren children item.id)

/-- A pinned assignment or manual placement is about executable work; a manual
placement is pinned and not empty. -/
def validatePinned : Except ScheduleError Unit :=
  match assignment.manualPlacementId with
  | some placementId =>
    require (¬ placementId.isNil ∧ assignment.pinned ∧ assignment.blocks ≠ [] ∧
        isExecutable children item)
      (.invalidItem assignment.itemId "manual placement must pin non-empty executable work")
  | none =>
    require (assignment.pinned = false ∨ isExecutable children item)
      (.invalidItem assignment.itemId "pinned assignment must identify executable work")

/-- The blocks of an assignment, checked in order; no session index appears twice,
and a manual placement stays in the horizon and in the window of its occurrence. -/
def validateBlocks (request : PlanRequest) (item : WorkItem) (assignment : PreviousAssignment)
    (seen : Finset UInt16) : List PreviousBlock → Except ScheduleError Unit
  | [] => .ok ()
  | block :: rest => do
    require (block.start < block.finish)
      (.invalidWindow ("previous assignment for " ++ assignment.itemId.toText))
    require (block.sessionIndex ∉ seen)
      (.invalidItem assignment.itemId "previous assignment repeats a session index")
    require (assignment.manualPlacementId = none ∨
        (request.asOf ≤ block.start ∧ request.horizonStart ≤ block.start ∧
          block.finish ≤ request.horizonEnd ∧
          item.constraints.occurrenceWindow.all fun window =>
            window.start ≤ block.start ∧ block.finish ≤ window.finish))
      (.invalidItem assignment.itemId
        "manual placement is outside its planning or occurrence window")
    validateBlocks request item assignment (insert block.sessionIndex seen) rest

/-- The assignments, checked in order; no unit of work appears twice. -/
def validateAssignments (request : PlanRequest) (byId : WorkMap)
    (children : ChildMap) (seen : Finset WorkIdentity) :
    List PreviousAssignment → Except ScheduleError Unit
  | [] => .ok ()
  | assignment :: rest =>
    match byId[assignment.itemId]? with
    | none => .error (.missingPreviousItem assignment.itemId)
    | some item => do
      require (assignment.identity ∉ seen)
        (.invalidItem assignment.itemId "previous assignment identity is duplicated")
      validatePinned children item assignment
      validateBlocks request item assignment ∅ assignment.blocks
      validateAssignments request byId children (insert assignment.identity seen) rest

def validatePreviousAssignments (request : PlanRequest) : Except ScheduleError Unit :=
  validateAssignments request (itemsById request.items) (childMap request.items) ∅
    request.previousAssignments

/-- The availability windows, checked in order from number `index` on. -/
def validateAvailability (index : ℕ) : List AvailabilityWindow → Except ScheduleError Unit
  | [] => .ok ()
  | window :: rest => do
    require (window.start < window.finish) (.invalidWindow ("availability " ++ toString index))
    validateAvailability (index + 1) rest

/-- The items form a forest. -/
def validateHierarchy (items : List WorkItem) : Except ScheduleError Unit :=
  match rollUpExpectedDurations items with
  | .ok _ => .ok ()
  | .error error => .error (.invalidHierarchy error.toText)

def validateRequest (request : PlanRequest) : Except ScheduleError Unit := do
  require (request.horizonStart < request.horizonEnd) .invalidHorizon
  require (¬ request.config.slotGranularity.isZero) .invalidGranularity
  validateItems ∅ request.items
  validateHierarchy request.items
  validateAvailability 0 request.availability
  checkAll (fun fixed : FixedBlock =>
    require (fixed.start < fixed.finish)
      (.invalidWindow ("fixed block " ++ fixed.id.toText))) request.fixedBlocks
  validatePreviousAssignments request

lemma validateItems_eq_ok {items : List WorkItem} {seen : Finset ItemId} :
    validateItems seen items = .ok w ↔ (∀ item ∈ items, validateItem item = .ok ()) ∧
      (items.map WorkItem.id).Nodup ∧ ∀ item ∈ items, item.id ∉ seen :=
  Keyed.check_iff (c := fun seen items => validateItems seen items = .ok w) (fun _ => rfl)
    fun seen item rest => by
      simp [validateItems, Unique.exists_iff, and_left_comm]

lemma validateAvailability_eq_ok {windows : List AvailabilityWindow} {index : ℕ} :
    validateAvailability index windows = .ok w ↔ ∀ w ∈ windows, w.start < w.finish := by
  induction windows generalizing index with
  | nil => simp [validateAvailability]
  | cons w rest ih => simp [validateAvailability, ih]

/-- What the checks of a request establish. -/
structure ValidRequest (request : PlanRequest) : Prop where
  horizon : request.horizonStart < request.horizonEnd
  granularity : request.config.slotGranularity ≠ 0
  nodup : (request.items.map WorkItem.id).Nodup
  items : ∀ item ∈ request.items, validateItem item = .ok ()
  hierarchy : ∃ totals, rollUpExpectedDurations request.items = .ok totals
  availability : ∀ window ∈ request.availability, window.start < window.finish
  fixedBlocks : ∀ fixed ∈ request.fixedBlocks, fixed.start < fixed.finish
  assignments : validatePreviousAssignments request = .ok ()

lemma validateRequest_eq_ok : validateRequest request = .ok w ↔ ValidRequest request := by
  have hroll : validateHierarchy request.items = .ok () ↔
      ∃ totals, rollUpExpectedDurations request.items = .ok totals := by
    unfold validateHierarchy
    cases rollUpExpectedDurations request.items <;> simp
  simp only [validateRequest, bind_eq_ok, require_eq_ok, validateItems_eq_ok,
    validateAvailability_eq_ok, Except.checkAll_eq_ok, exists_const]
  constructor
  · rintro ⟨hhor, hgran, ⟨hits, hnd, -⟩, ⟨⟨⟩, hfor, havail, hfixed, hassign⟩⟩
    exact ⟨hhor, by simpa [Minutes.isZero] using hgran, hnd, hits, hroll.mp hfor,
      havail, hfixed, hassign⟩
  · intro h
    exact ⟨h.horizon, by simpa [Minutes.isZero] using h.granularity, ⟨h.items, h.nodup, by simp⟩,
      (), hroll.mpr h.hierarchy, h.availability, h.fixedBlocks, h.assignments⟩

/-- Earlier assignments are about items, and pinned ones about flexible work. -/
lemma ValidRequest.assigned (h : ValidRequest request)
    {a : PreviousAssignment} (ha : a ∈ request.previousAssignments) :
    ∃ item, (itemsById request.items)[a.itemId]? = some item ∧
      (a.pinned → ¬ item.kind.isCalendarEvent) := by
  have hcheck : ∀ (l : List PreviousAssignment) seen, validateAssignments
      request (itemsById request.items) (childMap request.items) seen l = .ok () → ∀ a ∈ l,
        ∃ item, (itemsById request.items)[a.itemId]? = some item ∧
          validatePinned (childMap request.items) item a = .ok () := by
    intro l
    induction l with
    | nil => exact fun _ _ a ha => (nomatch ha)
    | cons b rest ih =>
      intro seen hok
      unfold validateAssignments at hok
      split at hok
      · cases hok
      · rename_i item hitem
        simp only [bind_eq_ok] at hok
        obtain ⟨-, -, ⟨⟩, hpin, -, -, hrest⟩ := hok
        exact List.forall_mem_cons.mpr ⟨⟨item, hitem, hpin⟩, ih _ hrest⟩
  obtain ⟨item, hitem, hpin⟩ := hcheck _ _ h.assignments a ha
  refine ⟨item, hitem, fun hp => ?_⟩
  unfold validatePinned at hpin
  split at hpin <;> rw [require_eq_ok] at hpin <;> simp_all [isExecutable]

lemma ValidRequest.splittable (h : ValidRequest request) {item : WorkItem}
    (hitem : item ∈ request.items) {low high : Minutes} {most : UInt16} {gap : Minutes}
    {days : Option UInt16} (hspl : item.splitPolicy = .splittable low high most gap days) :
    low ≠ 0 ∧ low ≤ high ∧ most ≠ 0 := by
  have hitem := h.items item hitem
  simp only [validateItem, bind_eq_ok, invalidItemOf_eq_ok, hspl, SplitPolicy.validate,
    exists_const] at hitem
  have hpol := hitem.2.1
  simp only [Except.ite_error_eq_ok] at hpol
  obtain ⟨hzero, hle, hsessions, -⟩ := hpol
  exact ⟨by simpa [Minutes.isZero] using hzero, UInt32.not_lt.mp hle, hsessions⟩

end DayWeave
