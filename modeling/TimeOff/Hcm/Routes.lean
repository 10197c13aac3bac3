import TimeOff.Hcm.MockHcmController
import TimeOff.Library.UrlPath

/-!
Where the router of the mock server sends a call of the HTTP client.

The ids of a balance are segments of its URL, so an empty id or one of dots leads somewhere else.
-/

namespace TimeOff

open UrlPath

/-- Where a request ends up. -/
inductive HcmRoute where
  -- The endpoint that the client means.
  | endpoint
  | corpus
  -- No route of the server matches.
  | missing (url : String)
  deriving DecidableEq, Repr

namespace MockHcmController

/-- The response to a request that no route matches. -/
def notFound {α : Type} (url : String) : HttpReply α :=
  .failed 404 { message := some ("Cannot GET " ++ url) }

/-- The route of a GET: names are matched in any case, and a slash at the end is ignored. -/
def route (path : List String) : HcmRoute :=
  match trimmed path with
  | [name, employeeId, locationId] =>
    -- The two parameters decode to the ids that the client has encoded.
    if name.toLower = "balances" ∧ employeeId ≠ "" ∧ locationId ≠ "" then .endpoint
    else .missing (render path)
  | [name] => if name.toLower = "corpus" then .corpus else .missing (render path)
  | _ => .missing (render path)

end MockHcmController

/-- The path under which a balance is fetched, as it is sent. -/
def HttpHcmClient.balancePath (employeeId locationId : String) : List String :=
  resolve [] ["balances", encodeURIComponent employeeId, encodeURIComponent locationId]

/-- Where a call of the client ends up. A POST is sent to its endpoint under a fixed path. -/
def HcmRequest.route : HcmRequest → HcmRoute
  | .getBalance employeeId locationId =>
    MockHcmController.route (HttpHcmClient.balancePath employeeId locationId)
  | .applyDelta _ => .endpoint

/--
What is read of a row where the corpus came in its place: none of its fields is there.

A balance that is inserted with it takes the defaults of its columns.
-/
def HcmBalanceRow.blank (employeeId locationId : String) (now : Time) : HcmBalanceRow :=
  { employeeId, locationId, balance := 0, version := 0, asOf := now }

namespace HcmRoute

/-- What the server responds with in place of the endpoint. -/
def reply (core : HcmCore) : HcmRoute → Option (HttpReply HcmAnswer)
  | .endpoint => none
  | .corpus => some (.ok (.corpus core.dumpCorpus))
  | .missing url => some (MockHcmController.notFound url)

/-- What a caller is told whose request ends up elsewhere: a 404 is read as a refusal. -/
def told (core : HcmCore) : HcmRoute → Option (Except HcmError HcmAnswer)
  | .endpoint => none
  | .corpus => some (.ok (.corpus core.dumpCorpus))
  | .missing url => some (.error (.rejection .insufficientBalance ("Cannot GET " ++ url)))

variable {core : HcmCore} {route : HcmRoute} {response : HttpReply HcmAnswer}

/-- A request that nobody responds to in place of its endpoint leads there. -/
theorem eq_endpoint_of_reply (unreplied : route.reply core = none) : route = .endpoint := by
  cases route with
  | endpoint => rfl
  | corpus | missing url => cases unreplied

/-- The client reads such a response as it is told. -/
theorem guarded_reply (replied : route.reply core = some response) (client : HttpHcmClient)
    (now : Time) : route.told core = some (client.guarded now response).2 := by
  -- The corpus is a success, and a 404 carries no code.
  cases route with
  | endpoint => cases replied
  | corpus | missing url =>
    cases replied
    rfl

/-- A response in place of an endpoint is no transient failure. -/
theorem told_ne_unavailable (core : HcmCore) (route : HcmRoute) (message : String) :
    route.told core ≠ some (.error (.unavailable message)) := by
  cases route <;> simp [told]

/-- A response in place of an endpoint holds no row. -/
theorem told_ne_row (core : HcmCore) (route : HcmRoute) (row : HcmBalanceRow) :
    route.told core ≠ some (.ok (.row row)) := by
  cases route <;> simp [told]

/-- The corpus is told where the corpus is served. -/
theorem eq_corpus_of_told {rows : List HcmBalanceRow}
    (held : route.told core = some (.ok (.corpus rows))) : route = .corpus := by
  cases route with
  | corpus => rfl
  | endpoint | missing url => cases held

end HcmRoute

/-- An id that is no segment of its own: a path without it, or with it, means another path. -/
def Misleading (id : String) : Prop :=
  id = "" ∨ id = "." ∨ id = ".."

instance (id : String) : Decidable (Misleading id) :=
  inferInstanceAs (Decidable (_ ∨ _ ∨ _))

/-- An id is misleading just when its segment is. -/
theorem misleading_encodeURIComponent (id : String) :
    Misleading (encodeURIComponent id) ↔ Misleading id := by
  -- The three misleading segments are written without escapes.
  have empty := encodeURIComponent_eq_iff id "" (by decide)
  have dot := encodeURIComponent_eq_iff id "." (by decide)
  have above := encodeURIComponent_eq_iff id ".." (by decide)
  rw [Misleading, Misleading, empty, dot, above]

/-- A segment that misleads nobody is no segment of dots. -/
theorem dots_of_not_misleading {segment : String} (plain : ¬Misleading segment) :
    dots segment = false := by
  simp only [Misleading, not_or] at plain
  simp [dots, plain]

namespace MockHcmController

theorem toLower_balances : "balances".toLower = "balances" := by decide +kernel

/-- Two segments that mean themselves lead to the row they name. -/
theorem route_of_plain {employeeId locationId : String} (employee : ¬Misleading employeeId)
    (location : ¬Misleading locationId) :
    route (resolve [] ["balances", employeeId, locationId]) = .endpoint := by
  -- Nothing is resolved and nothing is trimmed, so the path has its three segments.
  have plain : ∀ segment ∈ ["balances", employeeId, locationId], dots segment = false := by
    simp only [List.forall_mem_cons, List.not_mem_nil, false_implies, implies_true, and_true]
    exact ⟨by decide, dots_of_not_misleading employee, dots_of_not_misleading location⟩
  simp only [Misleading, not_or] at employee location
  rw [resolve_of_plain plain, List.nil_append]
  simp [route, trimmed, employee.1, location.1, toLower_balances]

/-- A misleading segment leads elsewhere, and to the corpus by one way only. -/
theorem route_of_misleading {employeeId locationId : String}
    (misled : Misleading employeeId ∨ Misleading locationId) :
    route (resolve [] ["balances", employeeId, locationId]) ≠ .endpoint ∧
      (route (resolve [] ["balances", employeeId, locationId]) = .corpus →
        employeeId = ".." ∧ locationId.toLower = "corpus") := by
  have own := toLower_balances
  -- Each of the two segments is one of the misleading ones, or means itself.
  by_cases first : Misleading employeeId
  · by_cases second : Misleading locationId
    · have empty : "".toLower = "" := by decide +kernel
      have dot : ".".toLower = "." := by decide +kernel
      have above : "..".toLower = ".." := by decide +kernel
      rcases first with rfl | rfl | rfl <;> rcases second with rfl | rfl | rfl <;>
        simp [resolve, dots, route, trimmed, own, empty, dot, above]
    · simp only [Misleading, not_or] at second
      rcases first with rfl | rfl | rfl
      · simp [resolve, dots, route, trimmed, second]
      · simp [resolve, dots, route, trimmed, second]
      · -- The path is the location alone, which may be the name of the corpus.
        by_cases named : locationId.toLower = "corpus" <;>
          simp [resolve, dots, route, trimmed, second, named]
  · have second := misled.resolve_left first
    simp only [Misleading, not_or] at first
    rcases second with rfl | rfl | rfl <;> simp [resolve, dots, route, trimmed, first, own]

end MockHcmController

/-- A balance is fetched from its endpoint just when neither id misleads. -/
theorem route_getBalance_iff (employeeId locationId : String) :
    (HcmRequest.getBalance employeeId locationId).route = .endpoint ↔
      ¬Misleading employeeId ∧ ¬Misleading locationId := by
  -- The route depends on the segments, and they mislead just when the ids do.
  have employee := misleading_encodeURIComponent employeeId
  have location := misleading_encodeURIComponent locationId
  rw [← employee, ← location]
  constructor
  · intro leads
    by_contra misled
    rw [← not_or, not_not] at misled
    exact (MockHcmController.route_of_misleading misled).1 leads
  · rintro ⟨first, second⟩
    exact MockHcmController.route_of_plain first second

/-- A balance that is answered with the corpus has two dots for its employee. -/
theorem above_of_route {employeeId locationId : String}
    (leads : (HcmRequest.getBalance employeeId locationId).route = .corpus) :
    employeeId = ".." := by
  -- A path that does not mean its endpoint has a misleading segment.
  by_cases misled : Misleading (encodeURIComponent employeeId) ∨
      Misleading (encodeURIComponent locationId)
  · have named := ((MockHcmController.route_of_misleading misled).2 leads).1
    exact (encodeURIComponent_eq_iff _ _ (by decide)).mp named
  · rw [not_or] at misled
    cases (MockHcmController.route_of_plain misled.1 misled.2).symm.trans leads

end TimeOff
