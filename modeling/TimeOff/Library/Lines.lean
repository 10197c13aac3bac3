import Mathlib.Data.List.Basic

/-! Lines of parties that are served one at a time, in the order in which they have come. -/

namespace Lines

/-- What a party does: it comes to the line, its turn starts, or it leaves after its turn. -/
inductive Event (ι : Type*) where
  | comes (party : ι)
  | starts (party : ι)
  | leaves (party : ι)
  deriving DecidableEq, Repr

namespace Event

variable {ι : Type*}

/-- Who comes to the line. -/
def arrival : Event ι → Option ι
  | .comes party => some party
  | _ => none

/-- Whose turn starts. -/
def start : Event ι → Option ι
  | .starts party => some party
  | _ => none

end Event

/-- Those who have left, the one whose turn it is, and those who wait. -/
structure Line (ι : Type*) where
  gone : List ι := []
  serving : Option ι := none
  waiting : List ι := []

variable {ι : Type*}

/-- The parties that come, in their order. -/
def arrivals (events : List (Event ι)) : List ι :=
  events.filterMap Event.arrival

/-- The parties whose turns start, in their order. -/
def starts (events : List (Event ι)) : List ι :=
  events.filterMap Event.start

namespace Line

/-- Everybody in line, the one whose turn it is before those who wait. -/
def present (line : Line ι) : List ι :=
  line.serving.toList ++ line.waiting

/-- Everybody who has come. -/
def arrived (line : Line ι) : List ι :=
  line.gone ++ line.present

/-- Everybody whose turn has started. -/
def begun (line : Line ι) : List ι :=
  line.gone ++ line.serving.toList

/-- Turns start in the order in which the parties have come. -/
theorem begun_prefix (line : Line ι) : line.begun <+: line.arrived :=
  ⟨line.waiting, List.append_assoc ..⟩

variable [DecidableEq ι]

/-- One event, where it is in order. Only the first who waits is served, and nobody besides. -/
def step (line : Line ι) : Event ι → Option (Line ι)
  | .comes party => some { line with waiting := line.waiting ++ [party] }
  -- Whose turn starts has waited longest, and finds nobody served.
  | .starts party =>
    if line.serving = none ∧ line.waiting.head? = some party then
      some { line with serving := some party, waiting := line.waiting.tail }
    else none
  | .leaves party =>
    if line.serving = some party then
      some { line with gone := line.gone ++ [party], serving := none }
    else none

variable {line next : Line ι} {event : Event ι} {events : List (Event ι)}

/-- An event adds to the arrivals and to the turns what it is itself. -/
theorem step_adds (taken : line.step event = some next) :
    next.arrived = line.arrived ++ arrivals [event] ∧
      next.begun = line.begun ++ starts [event] := by
  -- Whoever comes is new at the end, and a turn moves the first who waits to those begun.
  cases event with
  | comes party =>
    cases taken
    simp [arrived, present, begun, arrivals, starts, Event.arrival, Event.start]
  | starts party =>
    simp only [step] at taken
    split at taken
    · rename_i free
      obtain ⟨rest, same⟩ := List.head?_eq_some_iff.mp free.2
      cases taken
      -- Nobody is served, so the turns begun are those that are over.
      simp [arrived, present, begun, arrivals, starts, Event.arrival, Event.start, free.1, same]
    · cases taken
  | leaves party =>
    simp only [step] at taken
    split at taken
    · rename_i serving
      cases taken
      -- Leaving changes where a party stands, and not who has come or begun.
      simp [arrived, present, begun, arrivals, starts, Event.arrival, Event.start, serving]
    · cases taken

/-- Whoever is served in any order of events, the line knows who has come and whose turn began. -/
theorem run_adds (ran : events.foldlM step line = some next) :
    next.arrived = line.arrived ++ arrivals events ∧ next.begun = line.begun ++ starts events := by
  -- The first event adds its own, and the rest of them what comes after.
  induction events generalizing line with
  | nil =>
    cases ran
    simp [arrivals, starts]
  | cons event rest ih =>
    rw [List.foldlM_cons] at ran
    obtain ⟨middle, taken, onward⟩ := Option.bind_eq_some_iff.mp ran
    obtain ⟨arrived, begun⟩ := step_adds taken
    obtain ⟨arrivedLater, begunLater⟩ := ih onward
    -- The first event comes before the rest in both lists.
    have came : arrivals (event :: rest) = arrivals [event] ++ arrivals rest :=
      List.filterMap_append (l := [event]) ..
    have began : starts (event :: rest) = starts [event] ++ starts rest :=
      List.filterMap_append (l := [event]) ..
    rw [arrivedLater, begunLater, arrived, begun, came, began, List.append_assoc, List.append_assoc]
    exact ⟨rfl, rfl⟩

end Line

end Lines
