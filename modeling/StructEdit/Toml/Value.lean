import StructEdit.Text.Basic

/-!
# TOML values

Tables keep their entries in the order of the document. Floats are recognised, but
nothing here needs their value.
-/
namespace StructEdit.Toml

inductive Value where
  | text (s : Text)
  | integer (n : Int)
  | float
  | boolean (b : Bool)
  | array (items : List Value)
  | table (entries : List (Text × Value))

end StructEdit.Toml
