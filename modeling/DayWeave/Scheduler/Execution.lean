import DayWeave.Scheduler.Validate

/-!
Execution evidence: its checks, and its effect on the materialised request.

Skipped work is closed, credited effort shortens the remaining duration, used indices are never
allocated again, and live reservations keep their exact time. A reservation in the horizon that
belongs to no materialised work is an error.
-/

open Std

namespace DayWeave

open Except (bind_eq_ok require)

def invalidExecution (itemId : ItemId) (message : String) : ScheduleError :=
  .invalidItem itemId ("invalid execution planning context: " ++ message)

/-- Seconds to minutes, rounded up. -/
def ceilSecondsToMinutes (seconds : UInt64) : UInt32 :=
  UInt32.clamp ((seconds.satAdd 59).toNat / 60)

/-- The check of one reservation: it is not empty; a session in flight has a used
index, a replacement a fresh one above all used ones and a used source. -/
def validateExecutionReservation (itemId : ItemId) (used : List UInt16)
    (reservation : ExecutionReservation) : Except ScheduleError Unit :=
  let index := toString reservation.sessionIndex.toNat
  if reservation.finish ≤ reservation.start then
    .error (invalidExecution itemId
      ("reservation " ++ index ++ " for item " ++ itemId.toText ++ " has an empty window"))
  else
    match reservation.kind with
    | .inFlight =>
      require (reservation.sessionIndex ∈ used)
        (invalidExecution itemId ("in-flight reservation " ++ index ++ " for item " ++
          itemId.toText ++ " is not historical"))
    | .deferredReplacement source => do
      require (source ∈ used)
        (invalidExecution itemId ("deferred source index " ++ toString source.toNat ++
          " for item " ++ itemId.toText ++ " is not historical"))
      require (used.all fun high => high < reservation.sessionIndex)
        (invalidExecution itemId ("deferred replacement index " ++ index ++ " for item " ++
          itemId.toText ++ " is not fresh and monotonic"))

/-- The reservations, checked in order; no index appears twice. -/
def validateExecutionReservations (itemId : ItemId) (used : List UInt16) (seen : Finset UInt16) :
    List ExecutionReservation → Except ScheduleError Unit
  | [] => .ok ()
  | reservation :: rest => do
    validateExecutionReservation itemId used reservation
    require (reservation.sessionIndex ∉ seen)
      (invalidExecution itemId ("work unit for item " ++ itemId.toText ++
        " repeats reservation index " ++ toString reservation.sessionIndex.toNat))
    validateExecutionReservations itemId used (insert reservation.sessionIndex seen) rest

/-- The check of one unit of evidence by itself. -/
def validateExecutionWorkUnit (unit : ExecutionWorkUnit) : Except ScheduleError Unit := do
  require (unit.progressEpoch ≠ 0) (invalidExecution unit.itemId
      ("work unit for item " ++ unit.itemId.toText ++ " has a zero progress epoch"))
  require (unit.disposition ≠ some .skipped ∨ unit.reservations = []) (invalidExecution unit.itemId
      ("skipped work unit for item " ++ unit.itemId.toText ++ " cannot retain reservations"))
  match firstDuplicate ∅ unit.usedSessionIndices with
  | some index =>
    .error (invalidExecution unit.itemId ("work unit for item " ++ unit.itemId.toText ++
      " repeats historical session index " ++ toString index.toNat))
  | none => .ok ()
  validateExecutionReservations unit.itemId unit.usedSessionIndices ∅ unit.reservations

/-- The units, checked in order; no identity appears twice, and reservations belong
to flexible leaves. -/
def validateWorkUnits (byId : WorkMap) (children : ChildMap) (seen : Finset WorkIdentity) :
    List ExecutionWorkUnit → Except ScheduleError Unit
  | [] => .ok ()
  | unit :: rest =>
    match byId[unit.itemId]? with
    | none =>
      .error (invalidExecution unit.itemId
        ("work unit references missing item " ++ unit.itemId.toText))
    | some item => do
      require (unit.reservations = [] ∨ (¬ item.kind.isCalendarEvent ∧
          item.occupiesTime (children.contains item.id)))
        (invalidExecution unit.itemId
          "reservations must identify a flexible leaf execution component")
      require (unit.identity ∉ seen)
        (invalidExecution unit.itemId ("duplicate work unit for item " ++ unit.itemId.toText ++
          " and occurrence " ++ occurrenceDebug unit.occurrenceId))
      validateExecutionWorkUnit unit
      validateWorkUnits byId children (insert unit.identity seen) rest

/-- The checks of the execution evidence of a request. -/
def validateExecutionContext (request : PlanRequest) (execution : ExecutionPlanningContext) :
    Except ScheduleError Unit :=
  match execution.workUnits with
  | [] => .ok ()
  | unit :: _ => do
    require (execution.snapshotRevision ≠ 0) (invalidExecution unit.itemId
        "snapshot revision must be positive when work-unit evidence is present")
    validateWorkUnits (itemsById request.items) (childMap request.items) ∅ execution.workUnits

variable {w : Unit} {request : PlanRequest} {used : List UInt16} {itemId : ItemId}

lemma validateExecutionReservations_eq_ok {seen : Finset UInt16} {l : List ExecutionReservation} :
    validateExecutionReservations itemId used seen l = .ok w ↔
      (∀ r ∈ l, validateExecutionReservation itemId used r = .ok ()) ∧
      (l.map (·.sessionIndex)).Nodup ∧ ∀ r ∈ l, r.sessionIndex ∉ seen :=
  Keyed.check_iff (c := fun seen l => validateExecutionReservations itemId used seen l = .ok w)
    (fun _ => rfl) fun seen r rest => by
      simp [validateExecutionReservations, Unique.exists_iff]

lemma validateExecutionWorkUnit_ok {unit : ExecutionWorkUnit}
    (h : validateExecutionWorkUnit unit = .ok w) : validateExecutionReservations unit.itemId
      unit.usedSessionIndices ∅ unit.reservations = .ok w := by
  simp only [validateExecutionWorkUnit, bind_eq_ok] at h
  obtain ⟨-, -, -, -, h⟩ := h
  split at h
  · obtain ⟨-, h, -⟩ := bind_eq_ok.mp h
    cases h
  · obtain ⟨-, -, h⟩ := bind_eq_ok.mp h
    exact h

/-- A unit of evidence that passes: its reservations are not empty, have different indices, and
belong to flexible work. -/
structure SoundUnit (byId : WorkMap) (unit : ExecutionWorkUnit) : Prop where
  nonempty : ∀ r ∈ unit.reservations, r.start < r.finish
  nodup : (unit.reservations.map ExecutionReservation.sessionIndex).Nodup
  flexible : ∀ item, byId[unit.itemId]? = some item → item.kind.isCalendarEvent →
    unit.reservations = []

lemma validateWorkUnits_ok {byId : WorkMap} {children : ChildMap} {seen : Finset WorkIdentity}
    {units : List ExecutionWorkUnit} (h : validateWorkUnits byId children seen units = .ok w) :
    ∀ unit ∈ units, SoundUnit byId unit := by
  induction units generalizing seen with
  | nil => exact fun unit hu => (nomatch hu)
  | cons unit rest ih =>
    unfold validateWorkUnits at h
    split at h
    · cases h
    · rename_i item hitem
      simp only [bind_eq_ok, Except.require_eq_ok] at h
      obtain ⟨⟨⟩, hflex, ⟨⟩, -, ⟨⟩, hunit, hrest⟩ := h
      refine List.forall_mem_cons.mpr ⟨?_, ih hrest⟩
      obtain ⟨hall, hnd, -⟩ :=
        validateExecutionReservations_eq_ok.mp (validateExecutionWorkUnit_ok hunit)
      refine ⟨fun r hr => Std.not_le.mp (Except.ite_error_eq_ok.mp (hall r hr)).1, hnd,
        fun other hoth hevent => hflex.resolve_right fun h => h.1 ?_⟩
      cases hitem.symm.trans hoth
      exact hevent

lemma validateExecutionContext_ok {execution : ExecutionPlanningContext}
    (h : validateExecutionContext request execution = .ok w) :
    ∀ unit ∈ execution.workUnits, SoundUnit (itemsById request.items) unit := by
  unfold validateExecutionContext at h
  split at h
  · rename_i hnil
    rw [hnil]
    exact fun unit hu => (nomatch hu)
  · rename_i hcons
    simp only [bind_eq_ok] at h
    obtain ⟨-, -, h⟩ := h
    exact validateWorkUnits_ok h

/-- The evidence about one materialised item. -/
structure MaterializedExecutionWorkUnit where
  skipped : Bool
  usedSessionIndices : List UInt16
  reservations : List ExecutionReservation

namespace MaterializedExecutionWorkUnit

variable (unit : MaterializedExecutionWorkUnit) (index : UInt16)

/-- All indices that may not be allocated again. -/
def claimed : List UInt16 :=
  unit.usedSessionIndices ++ unit.reservations.map ExecutionReservation.sessionIndex

def highWater : Option UInt16 := unit.claimed.max?

def claimsSessionIndex : Bool :=
  index ∈ unit.claimed

end MaterializedExecutionWorkUnit

/-- The evidence by materialised item. -/
structure MaterializedExecutionContext where
  workUnits : ExtTreeMap ItemId MaterializedExecutionWorkUnit := ∅

variable (source : ExtTreeMap WorkIdentity ExecutionWorkUnit) (identities : IdentityMap)
  {execution : ExecutionPlanningContext}

/-- The public name of a materialised item. -/
def publicIdentity (id : ItemId) : WorkIdentity :=
  match identities[id]? with
  | some identity => ⟨identity.seriesItemId, some identity.occurrenceId⟩
  | none => ⟨id, none⟩

/-- The effect of a unit of evidence on its item. -/
def applyWorkUnit (unit : ExecutionWorkUnit) (item : WorkItem) : WorkItem :=
  if unit.disposition = some .skipped then { item with status := .skipped }
  else
    { item with
      duration := item.duration.map fun duration =>
        { duration with
          remaining := some (duration.expected.satSub
            (ceilSecondsToMinutes unit.creditedSeconds)) } }

def unitsByIdentity (execution : ExecutionPlanningContext) :
    ExtTreeMap WorkIdentity ExecutionWorkUnit :=
  ExtTreeMap.ofList (execution.workUnits.map fun unit => (unit.identity, unit))

def applyEvidence (item : WorkItem) : WorkItem :=
  match source[publicIdentity identities item.id]? with
  | none => item
  | some unit => applyWorkUnit unit item

/-- What the planner keeps of a unit of evidence. -/
def ExecutionWorkUnit.materialized (unit : ExecutionWorkUnit) : MaterializedExecutionWorkUnit where
  skipped := unit.disposition = some .skipped
  usedSessionIndices := unit.usedSessionIndices
  reservations := unit.reservations

/-- The evidence by materialised item, for the items that have some. -/
def materializeExecution (items : List WorkItem) : MaterializedExecutionContext where
  workUnits := ExtTreeMap.ofList (items.filterMap fun item =>
    (source[publicIdentity identities item.id]?).map fun unit => (item.id, unit.materialized))

/-- Drops the blocks of an assignment that execution has taken over, and the
assignment if none is left. -/
def retainAssignment (execution : MaterializedExecutionContext)
    (assignment : PreviousAssignment) : Option PreviousAssignment :=
  let blocks :=
    match execution.workUnits[assignment.itemId]? with
    | none => assignment.blocks
    | some unit =>
      if unit.skipped then []
      else assignment.blocks.filter fun block => ¬ unit.claimsSessionIndex block.sessionIndex
  if blocks = [] then none else some { assignment with blocks := blocks }

/-- The request and the evidence after applying the one to the other. -/
def applyExecutionContext (request : PlanRequest)
    (identities : IdentityMap) (execution : ExecutionPlanningContext) :
    Except ScheduleError (PlanRequest × MaterializedExecutionContext) := do
  let source := unitsByIdentity execution
  let matched := request.items.map fun item => publicIdentity identities item.id
  let materialized := materializeExecution source identities request.items
  let horizon : Span := ⟨request.horizonStart, request.horizonEnd⟩
  Except.checkAll (fun entry : WorkIdentity × ExecutionWorkUnit =>
    if entry.1 ∈ matched then .ok ()
    else
      match entry.2.reservations.find? fun r => horizon.Overlaps ⟨r.start, r.finish⟩ with
      | none => .ok ()
      | some reservation =>
        .error (invalidExecution entry.1.itemId ("reservation for occurrence " ++
          occurrenceDebug entry.1.occurrenceId ++ ", session " ++
          toString reservation.sessionIndex.toNat ++ " does not map to materialized work")))
    source.toList
  .ok ({ request with
      items := request.items.map (applyEvidence source identities)
      previousAssignments := request.previousAssignments.filterMap
        (retainAssignment materialized) },
    materialized)

lemma applyExecutionContext_ok {identities : IdentityMap}
    {result : PlanRequest × MaterializedExecutionContext}
    (h : applyExecutionContext request identities execution = .ok result) : result = ({ request with
          items := request.items.map (applyEvidence (unitsByIdentity execution) identities)
          previousAssignments := request.previousAssignments.filterMap (retainAssignment
            (materializeExecution (unitsByIdentity execution) identities request.items)) },
        materializeExecution (unitsByIdentity execution) identities request.items) := by
  obtain ⟨-, -, h⟩ := bind_eq_ok.mp h
  exact (Except.ok.inj h).symm

lemma exists_unit_of_mem_materializeExecution {identities : IdentityMap} {items : List WorkItem}
    {entry : ItemId × MaterializedExecutionWorkUnit}
    (h : entry ∈ (materializeExecution (unitsByIdentity execution) identities
      items).workUnits.toList) :
    ∃ unit ∈ execution.workUnits, unit.identity = publicIdentity identities entry.1 ∧
      entry.2 = unit.materialized := by
  rw [ExtTreeMap.mem_toList_iff_getElem?_eq_some] at h
  obtain ⟨item, -, hitem⟩ := List.mem_filterMap.mp (ExtTreeMap.mem_of_getElem?_ofList h)
  obtain ⟨unit, hunit, heq⟩ := Option.map_eq_some_iff.mp hitem
  obtain ⟨source, hsrc, hpair⟩ := List.mem_map.mp (ExtTreeMap.mem_of_getElem?_ofList hunit)
  obtain ⟨hident, rfl⟩ := Prod.mk.inj hpair
  obtain ⟨hid, hunit⟩ := Prod.mk.inj heq
  exact ⟨source, hsrc, hid ▸ hident, hunit.symm⟩

end DayWeave
