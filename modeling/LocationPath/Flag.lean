import LocationPath.Text.Blank

/-! # Flags

Settings that are on or off, read from texts. -/

namespace LocationPath

/-- The words that turn a setting on. -/
def onWords : List Text := ["1".toList, "true".toList, "yes".toList, "on".toList]

/-- The value of a setting. A setting that is not given has its default; any other is on exactly if
its text is one of the words for it, in capital or small letters and with any white space around.
Small letters are made of the letters A to Z alone: no other capital has a letter of these words as
its small letter. -/
def flag (value : Option Text) (default : Bool) : Bool :=
  match value with
  | none => default
  | some text => onWords.contains (text.trim.map Char.toLower)

/-- A setting that is not given has its default. -/
@[simp] theorem flag_none (default : Bool) : flag none default = default := rfl

end LocationPath
