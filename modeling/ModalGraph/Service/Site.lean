import ModalGraph.Metrics
import ModalGraph.RunId
import ModalGraph.Service.Basic
import ModalGraph.Service.Preference
import ModalGraph.Trace

/-!
# The site

A site puts the service next to a page of counters. Requests for other paths get a plain answer, without a run id and without
being counted. What the service reports is counted and traced.
-/

namespace ModalGraph

/-- A service with its counters, its trace, and the run ids that it deals out. -/
structure Site where
  service : Service
  metrics : Metrics := {}
  trace : Trace := {}
  runs : RunIds := {}

namespace Site

/-- The site after some reports. -/
def record (s : Site) (reports : List Report) : Site :=
  { s with
    metrics := reports.foldl (fun m r => m.record r.event) s.metrics
    trace := reports.foldl Trace.record s.trace }

/-- Answers a request by the service, unless the work breaks off. -/
def serve (s : Site) (r : Request) : Option Response × Site :=
  let runs := s.runs.renew
  let served := s.service.handle s.runs.next r
  (served.response, { s with service := served.service, runs := runs }.record served.reports)

/-- The page of counters. -/
def metricsPage (r : Request) (m : Metrics) : Response :=
  ⟨200, [("Content-Type", "text/plain; version=0.0.4; charset=utf-8; escaping=" ++ Preference.escaping (r.header "Accept"))],
    Bytes.ofString (String.join (m.lines.map fun l => l ++ "\n")), none⟩

/-- The answer to a path that does not exist. -/
def missingPage : Response :=
  ⟨404, [("Content-Type", "text/plain; charset=utf-8"), ("X-Content-Type-Options", "nosniff")],
    Bytes.ofString "404 page not found\n", none⟩

/-- The answer to a request that is about the server as a whole. Only the first version of the protocol does without an end of the
connection. -/
def wholeServer (r : Request) : Response :=
  ⟨400, if r.version.major = 0 then [] else [("Connection", "close")], [], none⟩

/-- A text inside a page. -/
def pageText (s : String) : String :=
  String.join (s.toList.map fun c =>
    if c == '&' then "&amp;" else if c == '<' then "&lt;" else if c == '>' then "&gt;"
    else if c == '"' then "&#34;" else if c == '\'' then "&#39;" else c.toString)

/-- A text with the bytes beyond ASCII escaped. -/
def asciiOnly (s : String) : String :=
  String.ofList ((Bytes.ofString s).flatMap fun b =>
    if b.toNat < 0x80 then [Char.ofNat b.toNat] else (Target.escapeByte b).map Char.toLower)

/-- Sends the caller to the clean form of a path. A page says so to those who look at pages. -/
def moved (r : Request) (path : String) : Response :=
  let place := path ++ (if r.target.query.isEmpty then "" else "?" ++ r.target.query)
  let isPage := r.method == "GET" || r.method == "HEAD"
  let page := "<a href=\"" ++ pageText place ++ "\">Temporary Redirect</a>.\n\n"
  ⟨307, [("Location", asciiOnly place)] ++ (if isPage then [("Content-Type", "text/html; charset=utf-8")] else []),
    if r.method == "GET" then Bytes.ofString page else [], none⟩

/-- Answers a request by the service, by the page of counters, or by none of them. A path that is not clean is not answered but
corrected, unless only a connection is asked for. -/
def route (s : Site) (r : Request) : Option Response × Site :=
  let written := r.target.written
  let clean := if r.method == "CONNECT" then written else Target.cleanPath written
  if r.target.isServer then (some (wholeServer r), s)
  else if clean != written then (some (moved r clean), s)
  else
    match Target.segment? written with
    | none => (some missingPage, s)
    | some name =>
      if Service.routes.contains ("/" ++ name) then s.serve r
      else if name == "metrics" then (some (metricsPage r s.metrics), s)
      else (some missingPage, s)

end Site

end ModalGraph
