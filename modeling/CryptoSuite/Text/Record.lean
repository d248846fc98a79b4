/-! The one-line text of a record: its name and its shown fields in braces, with two dots when
some fields stay hidden. -/
namespace CryptoSuite.Text

structure RecordText where
  name : String
  fields : List (String × String)
  hidden : Bool

/-- `Name { field: text, .. }`; the dots stand for hidden fields. -/
def RecordText.render (r : RecordText) : String :=
  let shown := r.fields.map fun f => f.1 ++ ": " ++ f.2
  let inside := String.intercalate ", " (shown ++ if r.hidden then [".."] else [])
  if inside.isEmpty then r.name else r.name ++ " \x7b " ++ inside ++ " \x7d"

end CryptoSuite.Text
