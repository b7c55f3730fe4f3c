import Provenance.Expr.Basic

/-!
# Expressions as documents

Every expression is an object with one field, named for its kind. All parts are written, also those that
have a default.
-/

namespace Provenance

/-- A column as a document. -/
def ColumnName.encode (name : ColumnName) : Json :=
  .object [("table", .text name.table), ("column", .text name.column)]

/-- A column of a cube as a document. -/
def CubeColumn.encode (name : CubeColumn) : Json :=
  .object [("cube", .text name.cube), ("column", .text name.column)]

namespace Expr

mutual

/-- An expression as a document. -/
def encode : Expr → Json
  | .literal value => .object [("literal", value.encode)]
  | .column name => .object [("column", name.encode)]
  | .speculative name => .object [("speculative", name.encode)]
  | .member hierarchy ancestor e =>
    .object [("member", .object
      [("hierarchy", .text hierarchy), ("member", .text ancestor), ("of", e.encode)])]
  | .unary op e => .object [("unary", .object [("op", .text op.name), ("arg", e.encode)])]
  | .binary op e e' =>
    .object [("binary", .object
      [("op", .text op.name), ("lhs", e.encode), ("rhs", e'.encode)])]
  | .call function args =>
    .object [("call", .object [("function", .text function), ("args", .array (encodeAll args))])]
  | .aggregate func e =>
    .object [("aggregate", .object [("func", .text func.name), ("arg", e.encode)])]
  | .aggregateRows func =>
    .object [("aggregate", .object [("func", .text func.name), ("arg", .null)])]

def encodeAll : List Expr → List Json
  | [] => []
  | e :: rest => e.encode :: encodeAll rest

end

end Expr

end Provenance
