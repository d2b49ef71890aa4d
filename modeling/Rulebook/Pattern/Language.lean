import Rulebook.Pattern.Matcher
import Rulebook.Pattern.Reader
import Rulebook.PatternLanguage

/-!
# The language of the patterns at hand

A text is read as a pattern, and the pattern is looked for with the matcher. Classes by properties
of characters are not part of the language.
-/
namespace Rulebook.Pattern

def language : PatternLanguage where
  read source :=
    match read source.toList with
    | .ok p => .ok ⟨p.occursIn⟩
    | .error fault => .error fault.message

end Rulebook.Pattern
