import TicketMarkup.Text.Basic

/-!
# Languages of code blocks

The tag after an opening fence may be a short name. The tracker knows languages by their full
names, so short names are replaced, whatever the case of their ASCII letters; any other tag stays
as it is.
-/

namespace TicketMarkup

/-- The short names of languages with the names that replace them. -/
def languageAliases : List (String × String) :=
  [("py", "python"), ("js", "javascript"), ("ts", "typescript"), ("sh", "bash"),
   ("shell", "bash"), ("zsh", "bash"), ("yml", "yaml"), ("rb", "ruby"), ("rs", "rust"),
   ("md", "markdown"), ("golang", "go"), ("cs", "csharp"), ("kt", "kotlin")]

/-- The name of the language that a tag stands for. -/
def canonicalLanguage (tag : Text) : Text :=
  match languageAliases.find? fun entry => entry.1.toList == tag.map Char.toLower with
  | some entry => entry.2.toList
  | none => tag

end TicketMarkup
