import PgMetrics.About
import PgMetrics.Http.Message
import PgMetrics.Http.Route
import PgMetrics.Service.Basic
import PgMetrics.Text.Form

/-! # The service over HTTP

The metrics answer GET and HEAD, the health check also OPTIONS; only GET gets a body.  The query
parameter `collect[]`, which may be repeated, names the scrapers to run.
-/
namespace PgMetrics.Service

open Http

variable {σ κ : Type}

def plainText : String := "text/plain; charset=utf-8"

def requestedScrapers (query : String) : List String := Text.Form.values "collect[]" query

def metricsAnswer (s : Service σ κ) (query : String) : Activity (World σ) Event Answer := do
  let only := requestedScrapers query
  match s.filterFault? only with
  | some fault =>
    return { status := 400, contentType := plainText, body := "Couldn't create " ++ fault.message }
  | none =>
    match ← s.render only with
    | .ok text => return { status := 200, contentType := plainText, body := text }
    | .error failure =>
      return { status := 500, contentType := plainText,
               body := "Error encoding metrics: " ++ failure.message }

def healthReport (about : About) (up : Bool) : String :=
  "\x7b\"commit\":\"" ++ about.commit ++ "\",\"name\":\"" ++ about.name ++ "\",\"version\":\"" ++
    about.version ++ "\",\"database\":\"" ++ (if up then "ok" else "error") ++ "\"\x7d"

def healthAnswer (s : Service σ κ) : Activity (World σ) Event Answer := do
  let up := (← s.ping).isOk
  return { status := if up then 200 else 503, app := About.this.header?,
           body := healthReport About.this up }

def methods : Endpoint → List String
  | .metrics => ["GET", "HEAD"]
  | .health => ["GET", "HEAD", "OPTIONS"]

def answer (s : Service σ κ) (routes : Routes) (r : Request) : Activity (World σ) Event Answer := do
  match routes.endpoint? r.path with
  | none => return { status := 404 }
  | some endpoint =>
    if r.method ∈ methods endpoint then
      let a ← match endpoint with
        | .metrics => s.metricsAnswer r.query
        | .health => s.healthAnswer
      return if r.method = "GET" then a else { a with body := "" }
    else return { status := 405, allow := ",".intercalate (methods endpoint) }

def respond (s : Service σ κ) (routes : Routes) (r : Request) :
    Activity (World σ) Event Response := do
  return r.respond (← s.answer routes r)

end PgMetrics.Service
