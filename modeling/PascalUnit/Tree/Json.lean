import PascalUnit.Json
import PascalUnit.Tree

/-!
# Trees as JSON

A leaf is a record of its text, a node a record of its rule and its children.
-/

namespace PascalUnit
namespace Tree

mutual
def toJson : Tree → Json
  | leaf text => .record [("text", .text text)]
  | node r ts =>
      .record [("rule", .text r.name), ("children", .list (toJsonAll ts))]

def toJsonAll : List Tree → List Json
  | [] => []
  | t :: ts => toJson t :: toJsonAll ts
end

end Tree
end PascalUnit
