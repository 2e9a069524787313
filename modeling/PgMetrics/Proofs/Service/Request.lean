import PgMetrics.Proofs.Scrape.Filtered
import PgMetrics.Rehearsal.Server
import PgMetrics.Selection
import PgMetrics.Service.Http
import PgMetrics.Service.Traffic

/-! # What a request for the metrics may name

A request names scrapers that the catalog has and the selection enables, and then exactly these run,
in the order of the catalog and behind the caches of the selection.  Or it names something else, and
is refused at its first such name before anything is asked of anybody.
-/
namespace PgMetrics

open Http

variable {σ κ : Type}

/-- No scraper has the name of a cached one. -/
theorem Catalog.cached_notMem_names (name : String) : "cached_" ++ name ∉ names := by
  have hcatalog : ∀ n ∈ names, ¬ "cached_".toList <+: n.toList := by decide
  intro h
  refine hcatalog _ h ?_
  rw [String.toList_append]
  exact List.prefix_append _ _

namespace Statistics

end Statistics

namespace Selection

def Serves (sel : Selection) (name : String) : Prop := name ∈ Catalog.names ∧ name ∈ sel.enabled

instance (sel : Selection) : DecidablePred sel.Serves := fun _ => inferInstanceAs (Decidable (_ ∧ _))

variable (sel : Selection) (wire : Wire σ κ)

end Selection

namespace FilterFault

end FilterFault

namespace Service

variable (s : Service σ κ)

def metricsReply (os : List Observation) : Answer :=
  match s.exposition os with
  | .ok text => { status := 200, contentType := plainText, body := text }
  | .error failure =>
    { status := 500, contentType := plainText,
      body := "Error encoding metrics: " ++ failure.message }

theorem metricsAnswer_eq (query : String) : s.metricsAnswer query =
    match s.filterFault? (requestedScrapers query) with
    | some fault => pure { status := 400, contentType := plainText,
                           body := "Couldn't create " ++ fault.message }
    | none => do return s.metricsReply (← s.scrape (requestedScrapers query)) := by
  rw [metricsAnswer]
  cases s.filterFault? (requestedScrapers query) with
  | some fault => rfl
  | none =>
    simp only [render, Activity.bind_assoc]
    refine congrArg (_ >>= ·) (funext fun os => ?_)
    change (match s.exposition os with | .ok text => _ | .error failure => _) = _
    cases hos : s.exposition os <;> simp only [metricsReply, hos]

section Calls
variable (routes : Routes) (r : Request)

def calls : List (Move σ) :=
  match routes.endpoint? r.path with
  | none => []
  | some endpoint =>
    if r.method ∈ methods endpoint then
      match endpoint with
      | .metrics =>
        match s.filterFault? (requestedScrapers r.query) with
        | some _ => []
        | none => [.askScrape (requestedScrapers r.query)]
      | .health => [.askPing]
    else []

/-- A request is answered out of what it asks for. -/
theorem answer_cases :
    (s.calls routes r = [] ∧ ∃ a, s.answer routes r = pure a) ∨
      (∃ only, ∃ reply : List Observation → Answer, s.calls routes r = [.askScrape only] ∧
        s.answer routes r = do return reply (← s.scrape only)) ∨
      ∃ reply : Verdict → Answer, s.calls routes r = [.askPing] ∧
        s.answer routes r = do return reply (← s.ping) := by
  let shown : Answer → Answer := fun a => if r.method = "GET" then a else { a with body := "" }
  rw [calls, answer]
  cases routes.endpoint? r.path with
  | none => exact Or.inl ⟨rfl, _, rfl⟩
  | some endpoint =>
    by_cases hmethod : r.method ∈ methods endpoint
    · simp only [if_pos hmethod]
      cases endpoint with
      | metrics =>
        simp only [metricsAnswer_eq]
        cases s.filterFault? (requestedScrapers r.query) with
        | some fault => exact Or.inl ⟨rfl, _, rfl⟩
        | none =>
          refine Or.inr (Or.inl ⟨_, fun os => shown (s.metricsReply os), rfl, ?_⟩)
          rw [Activity.bind_assoc]
          rfl
      | health =>
        refine Or.inr (Or.inr ⟨fun verdict => shown
          { status := if verdict.isOk then 200 else 503, app := About.this.header?,
            body := healthReport About.this verdict.isOk }, rfl, ?_⟩)
        rw [healthAnswer, Activity.bind_assoc]
        rfl
    · simp only [if_neg hmethod]
      exact Or.inl ⟨trivial, _, rfl⟩

def handler (query : String) : Endpoint → Activity (World σ) Event Answer
  | .metrics => s.metricsAnswer query
  | .health => s.healthAnswer

theorem answer_of_get {routes : Routes} {r : Request} {endpoint : Endpoint}
    (hmethod : r.method = "GET") (hpath : routes.endpoint? r.path = some endpoint) :
    s.answer routes r = s.handler r.query endpoint := by
  have hget : r.method ∈ methods endpoint := by
    rw [hmethod]
    cases endpoint <;> exact List.mem_cons_self
  rw [answer, hpath]
  simp only [if_pos hget, if_pos hmethod]
  cases endpoint <;> exact Activity.bind_pure _

section Metrics
variable {routes : Routes} {r : Request} (hmethod : r.method = "GET")
  (hpath : routes.endpoint? r.path = some .metrics)

include hmethod hpath

end Metrics
end Calls

section Selection
variable {s} {sel : Selection} {wire : Wire σ κ} (h : s.scrapers = sel.scrapers wire)

include h

variable {routes : Routes} {r : Request} (hmethod : r.method = "GET")
  (hpath : routes.endpoint? r.path = some .metrics)

include hmethod hpath

end Selection

end Service
end PgMetrics
