/-
Two texts for a type: the full one, which error messages quote and which shows every field with its
name and nullability, and the short one for reports.
-/
import ColumnStream.DataType.Basic
import ColumnStream.Text.Quoted

namespace ColumnStream

def boolText (b : Bool) : String := if b then "true" else "false"

namespace DataType

def fieldText (name type : String) (nullable : Bool) : String :=
  "Field \x7b name: " ++ Text.quoted name ++ ", data_type: " ++ type ++ ", nullable: "
    ++ boolText nullable ++ " \x7d"

mutual
def describe : DataType → String
  | boolean => "Boolean"
  | fixed p => p.name
  | binary => "Binary"
  | utf8 => "Utf8"
  | list ⟨name, t, nullable⟩ => "List(" ++ fieldText name (describe t) nullable ++ ")"
  | struct members => "Struct([" ++ ", ".intercalate (describeAll members) ++ "])"

def describeAll : List Field → List String
  | [] => []
  | ⟨name, t, nullable⟩ :: rest => fieldText name (describe t) nullable :: describeAll rest
end

mutual
def caption : DataType → String
  | boolean => "Boolean"
  | fixed p => p.name
  | binary => "Binary"
  | utf8 => "Utf8"
  | list ⟨_, t, _⟩ => "List<" ++ caption t ++ ">"
  | struct members => "Struct<" ++ ", ".intercalate (captionAll members) ++ ">"

def captionAll : List Field → List String
  | [] => []
  | ⟨name, t, _⟩ :: rest => (name ++ ": " ++ caption t) :: captionAll rest
end

end DataType

end ColumnStream
