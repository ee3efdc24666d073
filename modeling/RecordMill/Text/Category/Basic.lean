import RecordMill.Text.Category.Classes
import RecordMill.Text.Category.Scripts

/-! # Classes of characters by their names -/

namespace RecordMill.Category

abbrev Runs := List (Nat × Nat × Nat)

/-- A set of characters, or everything outside of it. -/
structure Class where
  negated : Bool := false
  runs : Runs
  deriving DecidableEq, Repr

def inRuns (runs : Runs) (code : Nat) : Bool :=
  runs.any fun (lo, hi, step) => lo ≤ code && code ≤ hi && (code - lo) % step == 0

def letters : Runs := uppercase ++ lowercase ++ titlecase ++ modifierLetter ++ otherLetter

def marks : Runs := nonspacing ++ spacing ++ enclosing

def numbers : Runs := decimalDigit ++ letterNumber ++ otherNumber

def punctuation : Runs :=
  connector ++ dash ++ opening ++ closing ++ initialQuote ++ finalQuote ++ otherPunctuation

def symbols : Runs := mathSymbol ++ currency ++ modifierSymbol ++ otherSymbol

def separators : Runs := blank ++ lineBreak ++ paragraphBreak

def surrogate : Runs := [(0xd800, 0xdfff, 1)]

def privateUse : Runs := [(0xe000, 0xf8ff, 1), (0xf0000, 0xffffd, 1), (0x100000, 0x10fffd, 1)]

/-- Characters that are written or that separate what is written. -/
def visible : Runs := letters ++ marks ++ numbers ++ punctuation ++ symbols ++ separators

def assigned : Runs := visible ++ control ++ format ++ surrogate ++ privateUse

/-- Characters that are shown as they are: everything with a shape, and the plain blank. -/
def isPrintable (code : Nat) : Bool :=
  if code < 0x7f then 0x20 ≤ code
  else inRuns letters code || inRuns marks code || inRuns numbers code || inRuns punctuation code
    || inRuns symbols code

def named : List (String × Runs) :=
  [("L", letters), ("Lu", uppercase), ("Ll", lowercase), ("Lt", titlecase), ("Lm", modifierLetter),
    ("Lo", otherLetter), ("LC", uppercase ++ lowercase ++ titlecase), ("M", marks), ("Mn", nonspacing),
    ("Mc", spacing), ("Me", enclosing), ("N", numbers), ("Nd", decimalDigit), ("Nl", letterNumber),
    ("No", otherNumber), ("P", punctuation), ("Pc", connector), ("Pd", dash), ("Ps", opening),
    ("Pe", closing), ("Pi", initialQuote), ("Pf", finalQuote), ("Po", otherPunctuation),
    ("S", symbols), ("Sm", mathSymbol), ("Sc", currency), ("Sk", modifierSymbol), ("So", otherSymbol),
    ("Z", separators), ("Zs", blank), ("Zl", lineBreak), ("Zp", paragraphBreak), ("Cc", control),
    ("Cf", format), ("Cs", surrogate), ("Co", privateUse)]

def longNames : List (String × String) :=
  [("Letter", "L"), ("UppercaseLetter", "Lu"), ("LowercaseLetter", "Ll"), ("TitlecaseLetter", "Lt"),
    ("CasedLetter", "LC"), ("ModifierLetter", "Lm"), ("OtherLetter", "Lo"), ("Mark", "M"),
    ("CombiningMark", "M"), ("NonspacingMark", "Mn"), ("SpacingMark", "Mc"), ("EnclosingMark", "Me"),
    ("Number", "N"), ("DecimalNumber", "Nd"), ("Digit", "Nd"), ("LetterNumber", "Nl"),
    ("OtherNumber", "No"), ("Punctuation", "P"), ("Punct", "P"), ("ConnectorPunctuation", "Pc"),
    ("DashPunctuation", "Pd"), ("OpenPunctuation", "Ps"), ("ClosePunctuation", "Pe"),
    ("InitialPunctuation", "Pi"), ("FinalPunctuation", "Pf"), ("OtherPunctuation", "Po"),
    ("Symbol", "S"), ("MathSymbol", "Sm"), ("CurrencySymbol", "Sc"), ("ModifierSymbol", "Sk"),
    ("OtherSymbol", "So"), ("Separator", "Z"), ("SpaceSeparator", "Zs"), ("LineSeparator", "Zl"),
    ("ParagraphSeparator", "Zp"), ("Other", "C"), ("Control", "Cc"), ("Cntrl", "Cc"), ("Format", "Cf"),
    ("Surrogate", "Cs"), ("PrivateUse", "Co"), ("Unassigned", "Cn")]

/-- Classes that are the rest of others, or everything. A code without a meaning counts as "other". -/
def special : List (String × Class) :=
  [("Any", { runs := [(0, 0x10ffff, 1)] }), ("ASCII", { runs := [(0, 0x7f, 1)] }),
    ("Assigned", { runs := assigned }), ("Cn", { negated := true, runs := assigned }),
    ("C", { negated := true, runs := visible })]

/-- Names are compared without case, blanks, hyphens and underscores. -/
def plainName (name : List Char) : List Char :=
  (name.filter fun c => c != ' ' && c != '_' && c != '-').map Char.toLower

def lookup? {α : Type} (name : List Char) (entries : List (String × α)) : Option α :=
  (entries.find? fun (s, _) => plainName s.toList == plainName name).map (·.2)

def Class.ofSpans (spans : Spans) : Class := { runs := spans.map fun (lo, hi) => (lo, hi, 1) }

/-- The class of a name: some that cut across the categories, then categories by their short names,
scripts, and categories by their long names. -/
def find? (name : List Char) : Option Class :=
  (lookup? name special).or <| ((lookup? name named).map fun runs => { runs }).or <|
    ((lookup? name scripts).map Class.ofSpans).or <|
      (lookup? name longNames).bind fun short =>
        (lookup? short.toList special).or ((lookup? short.toList named).map fun runs => { runs })

end RecordMill.Category
