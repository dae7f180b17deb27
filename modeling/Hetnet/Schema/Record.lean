import Hetnet.Json
import Hetnet.Schema

/-!
# The stored form of a schema

A schema is stored as its record: the version of the format, then for every label the
sorted list of its links, each a pair of numbers.
-/

namespace Hetnet

namespace SchemaRecord

/-- The record as structured output. -/
def json (r : SchemaRecord) : Json :=
  .object [
    ("version", .nat r.version),
    ("rows", .array (r.rows.map fun row => .array (row.map fun link =>
      .array [.nat link.label.index, .nat link.edgeType.index])))]

end SchemaRecord

end Hetnet
