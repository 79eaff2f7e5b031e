import AttackMap.Filter
import AttackMap.Load
import AttackMap.Message

/-!
# Directives and reports

The server decides how much it sends; the client never asks. Every so often
it reports how it is coping and what it shows, and the server answers, if
it likes, with a directive. A report that is lost is not repeated.
-/

namespace AttackMap

/-- The mode the server last ordered, and why. -/
structure Directive where
  mode : StreamMode
  reason : Option String
  deriving DecidableEq, Repr

namespace Directive

/-- Before the server has said anything. -/
def initial : Directive := ⟨.raw, none⟩

/-- The order of a message; a reason without text is no reason. -/
def order (mode : StreamMode) (reason : String) : Directive :=
  ⟨mode, if reason.isEmpty then none else some reason⟩

end Directive

namespace Filter

/-- The declaration of a filter. -/
def declare (f : Filter) : Outbound :=
  .setFilters f.window f.minSeverity f.majorOnly f.kinds f.country

end Filter

namespace LoadReport

/-- The telemetry of a load. -/
def telemetry (r : LoadReport) : Outbound := .telemetry r.fps r.queued r.dropped

end LoadReport

/-- What is sent on a tick: how the client copes, then what it shows. -/
def reports (f : Filter) (r : LoadReport) : List Outbound := [r.telemetry, f.declare]

end AttackMap
