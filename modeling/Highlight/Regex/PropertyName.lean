import Highlight.Regex.CharSet

/-!
# Names of character properties

Patterns name properties of characters; case, blanks, hyphens and underscores in a name do not
matter. `CharSet.ofPropertyName?` reads the names of grammar patterns, where `[:name:]` and
`\p\x7bname\x7d` share the POSIX names.
-/

namespace Highlight.CharSet

/-- The set of the characters in one of the categories. -/
def categories (gs : List Category) : CharSet := property (.category gs)

/-- Decimal digits of all scripts. -/
def digit : CharSet := categories [.decimalNumber]

/-- White space of all scripts. -/
def space : CharSet := property .whiteSpace

/-- Characters of words. -/
def word : CharSet := property .word

/-- Digits of the base sixteen. -/
def hexDigit : CharSet := property .hexDigit

/-- The general categories by their long and short names. -/
def categoryNames : List (String × List Category) := [
  ("l", Category.letters), ("letter", Category.letters),
  ("lc", [.uppercaseLetter, .lowercaseLetter, .titlecaseLetter]),
  ("casedletter", [.uppercaseLetter, .lowercaseLetter, .titlecaseLetter]),
  ("lu", [.uppercaseLetter]), ("uppercaseletter", [.uppercaseLetter]),
  ("ll", [.lowercaseLetter]), ("lowercaseletter", [.lowercaseLetter]),
  ("lt", [.titlecaseLetter]), ("titlecaseletter", [.titlecaseLetter]),
  ("lm", [.modifierLetter]), ("modifierletter", [.modifierLetter]),
  ("lo", [.otherLetter]), ("otherletter", [.otherLetter]),
  ("m", Category.marks), ("mark", Category.marks), ("combiningmark", Category.marks),
  ("mn", [.nonspacingMark]), ("nonspacingmark", [.nonspacingMark]),
  ("mc", [.spacingMark]), ("spacingmark", [.spacingMark]),
  ("me", [.enclosingMark]), ("enclosingmark", [.enclosingMark]),
  ("n", Category.numbers), ("number", Category.numbers),
  ("nd", [.decimalNumber]), ("decimalnumber", [.decimalNumber]),
  ("nl", [.letterNumber]), ("letternumber", [.letterNumber]),
  ("no", [.otherNumber]), ("othernumber", [.otherNumber]),
  ("p", Category.punctuation), ("punctuation", Category.punctuation),
  ("pc", [.connectorPunctuation]), ("connectorpunctuation", [.connectorPunctuation]),
  ("pd", [.dashPunctuation]), ("dashpunctuation", [.dashPunctuation]),
  ("ps", [.openPunctuation]), ("openpunctuation", [.openPunctuation]),
  ("pe", [.closePunctuation]), ("closepunctuation", [.closePunctuation]),
  ("pi", [.initialPunctuation]), ("initialpunctuation", [.initialPunctuation]),
  ("pf", [.finalPunctuation]), ("finalpunctuation", [.finalPunctuation]),
  ("po", [.otherPunctuation]), ("otherpunctuation", [.otherPunctuation]),
  ("s", Category.symbols), ("symbol", Category.symbols),
  ("sm", [.mathSymbol]), ("mathsymbol", [.mathSymbol]),
  ("sc", [.currencySymbol]), ("currencysymbol", [.currencySymbol]),
  ("sk", [.modifierSymbol]), ("modifiersymbol", [.modifierSymbol]),
  ("so", [.otherSymbol]), ("othersymbol", [.otherSymbol]),
  ("z", Category.separators), ("separator", Category.separators),
  ("zs", [.spaceSeparator]), ("spaceseparator", [.spaceSeparator]),
  ("zl", [.lineSeparator]), ("lineseparator", [.lineSeparator]),
  ("zp", [.paragraphSeparator]), ("paragraphseparator", [.paragraphSeparator]),
  ("cc", [.control]), ("control", [.control]),
  ("cf", [.format]), ("format", [.format]),
  ("co", [.privateUse]), ("privateuse", [.privateUse])]

/-- The other properties that both dialects know by name. -/
def sharedNames : List (String × CharSet) := [
  ("any", everything), ("ascii", property .ascii), ("assigned", property .assigned),
  ("alphabetic", property .alphabetic), ("alpha", property .alphabetic),
  ("lowercase", property .lowercase), ("lower", property .lowercase),
  ("uppercase", property .uppercase), ("upper", property .uppercase),
  ("whitespace", space), ("space", space), ("wspace", space),
  ("c", compl (categories (Category.all.filter
    fun g => !([Category.control, .format, .privateUse].contains g)))),
  ("other", compl (categories (Category.all.filter
    fun g => !([Category.control, .format, .privateUse].contains g)))),
  ("cn", compl (property .assigned)), ("unassigned", compl (property .assigned)),
  ("idstart", categories (.letterNumber :: Category.letters)),
  ("xidstart", categories (.letterNumber :: Category.letters)),
  ("idcontinue", union word (categories [.letterNumber])),
  ("xidcontinue", union word (categories [.letterNumber])),
  ("latin", property (.script .latin)), ("latn", property (.script .latin)),
  ("greek", property (.script .greek)), ("grek", property (.script .greek)),
  ("cyrillic", property (.script .cyrillic)), ("cyrl", property (.script .cyrillic)),
  ("armenian", property (.script .armenian)), ("armn", property (.script .armenian)),
  ("hebrew", property (.script .hebrew)), ("hebr", property (.script .hebrew)),
  ("arabic", property (.script .arabic)), ("arab", property (.script .arabic)),
  ("devanagari", property (.script .devanagari)), ("deva", property (.script .devanagari)),
  ("thai", property (.script .thai)),
  ("georgian", property (.script .georgian)), ("geor", property (.script .georgian)),
  ("hangul", property (.script .hangul)), ("hang", property (.script .hangul)),
  ("hiragana", property (.script .hiragana)), ("hira", property (.script .hiragana)),
  ("katakana", property (.script .katakana)), ("kana", property (.script .katakana)),
  ("han", property (.script .han)), ("hani", property (.script .han))]

/-- The names between `[:` and `:]` in grammar patterns, which hold for all scripts. -/
def posixNames : List (String × CharSet) := [
  ("alnum", property .alphanumeric), ("alpha", property .alphabetic), ("blank", property .blank),
  ("cntrl", categories [.control]), ("digit", digit), ("graph", property .graphic),
  ("lower", property .lowercase), ("print", property .printable),
  ("punct", property .punctuation), ("space", space), ("upper", property .uppercase),
  ("xdigit", hexDigit), ("ascii", property .ascii), ("word", word)]

/-- A property name without the characters that do not matter. -/
def normalName (name : List Char) : String :=
  String.ofList ((name.filter fun c => !(c == ' ' || c == '-' || c == '_')).map Char.toLower)

/-- The general category or shared property of a normal name. -/
def ofNormalName? (name : String) : Option CharSet :=
  match categoryNames.lookup name with
  | some gs => some (categories gs)
  | none => sharedNames.lookup name

/-- The set that a property name stands for in grammar patterns. -/
def ofPropertyName? (name : List Char) : Option CharSet :=
  let name := normalName name
  match posixNames.lookup name with
  | some s => some s
  | none => ofNormalName? name

end Highlight.CharSet
