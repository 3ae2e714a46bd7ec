/-!
# Why a text is not a YAML document

The causes for which a text is refused, from its characters up to the values of its scalars.

## What is left out

Where in a text the fault is.  The messages are those of this library, one for each cause.
-/

namespace SchemaLoom.Yaml

inductive Fault where
  | controlCharacter
  | strayCharacter
  | tabIndentation
  | unterminatedString
  | markerInString
  | unknownEscape
  | badEscape
  | badBlockHeader
  | colonInFlow
  | badAnchor
  | badTag
  | badDirective
  | missingColon
  | misplacedEntry
  | misplacedKey
  | misplacedValue
  | unexpectedToken
  | unknownHandle
  | unknownAnchor
  | moreDocuments
  | unknownTag
  | badTaggedScalar
  | numberOutOfRange
  | keyIsNoScalar
  | tooDeep
  | tooManyAliases
deriving DecidableEq, Repr

/-- One line about a fault. -/
def Fault.message : Fault → String
  | .controlCharacter => "control characters are not allowed"
  | .strayCharacter => "found a character that cannot start any token"
  | .tabIndentation => "found a tab character where indentation is expected"
  | .unterminatedString => "found the end of the text inside a quoted string"
  | .markerInString => "found a document marker inside a quoted string"
  | .unknownEscape => "found an unknown escape character"
  | .badEscape => "found an escape that names no character"
  | .badBlockHeader => "found an invalid header of a block string"
  | .colonInFlow => "found an unexpected colon"
  | .badAnchor => "found an anchor or alias without a name"
  | .badTag => "found an invalid tag"
  | .badDirective => "found an invalid directive"
  | .missingColon => "could not find an expected colon"
  | .misplacedEntry => "sequence entries are not allowed here"
  | .misplacedKey => "mapping keys are not allowed here"
  | .misplacedValue => "mapping values are not allowed here"
  | .unexpectedToken => "did not find what the context expects"
  | .unknownHandle => "found an undefined tag handle"
  | .unknownAnchor => "found an alias of an unknown anchor"
  | .moreDocuments => "found more than one document"
  | .unknownTag => "found an unknown tag"
  | .badTaggedScalar => "found a scalar that does not fit its tag"
  | .numberOutOfRange => "found an integer that does not fit into 64 bits"
  | .keyIsNoScalar => "found a mapping key that is no scalar"
  | .tooDeep => "found more levels of nesting than are allowed"
  | .tooManyAliases => "found more aliases than are allowed"

end SchemaLoom.Yaml
