import LatexOrigins.Origin.Record

/-!
# Problems

What a checker reports: a place in a source file and what is wrong there.
-/

namespace LatexOrigins

structure Problem where
  origin : Origin
  message : String
  context : String
  longId : String
  tool : String
  rule : String
  lookUpUrl : Option String
  deriving Repr

namespace Problem

def bare (origin : Origin) (tool rule message : String) : Problem :=
  ⟨origin, message, "", "", tool, rule, none⟩

/-- The written form of a problem. A missing address is left out. -/
def toJson (p : Problem) : Json :=
  .object <|
    [("origin", p.origin.record.toJson), ("message", .string p.message),
      ("context", .string p.context), ("long_id", .string p.longId), ("tool", .string p.tool),
      ("rule", .string p.rule)] ++
    p.lookUpUrl.toList.map (fun url => ("look_up_url", .string url))

end Problem

end LatexOrigins
