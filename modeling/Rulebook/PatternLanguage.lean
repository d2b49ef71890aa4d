/-!
# Languages of patterns

Rules match texts against patterns. Which texts write a pattern, and where a pattern occurs, is up
to the language of the patterns; the rulebook only reads them and looks for them.
-/
namespace Rulebook

/-- A pattern that has been read. -/
structure TextPattern where
  occursIn : String → Bool

structure PatternLanguage where
  /-- The pattern that a text writes, or what is wrong with the text. -/
  read : String → Except String TextPattern

namespace PatternLanguage

/-- The pattern for whole texts: the given one is put, as text, in a group between the two ends. -/
def anchored (source : String) : String := "^(?:" ++ source ++ ")$"

def readWhole (language : PatternLanguage) (source : String) : Except String TextPattern :=
  language.read (anchored source)

end PatternLanguage
end Rulebook
