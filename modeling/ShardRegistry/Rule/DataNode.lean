import ShardRegistry.Text.Blank

/-! Data nodes: actual tables on one backend, written `data_source.table`. -/
namespace ShardRegistry

structure DataNode where
  dataSource : String
  table : String
  deriving DecidableEq, Repr

namespace DataNode

/-- Reads a node after dropping blanks around it: two parts, none empty, and one point. -/
def read (text : String) : Option DataNode :=
  let cs := Text.strip Text.isBlank text.toList
  let dataSource := cs.takeWhile (· ≠ '.')
  match cs.dropWhile (· ≠ '.') with
  | _ :: table =>
    if dataSource.isEmpty || table.isEmpty || table.contains '.' then none
    else some ⟨String.ofList dataSource, String.ofList table⟩
  | [] => none

def text (n : DataNode) : String := n.dataSource ++ "." ++ n.table

end DataNode

end ShardRegistry
