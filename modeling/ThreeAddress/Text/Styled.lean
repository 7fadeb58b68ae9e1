/-!
# Styled text

A listing is a sequence of spans, some of them in a terminal style. With colours off the styles
are dropped. With colours on a styled span is wrapped in the escape sequences that start its
style and reset it; a reset inside the span's own text would end the style early, so the style
is started again behind each one.

`withoutControls` goes the other way: it removes the escape sequences and every control
character but the line feed, which makes a line fit to stand in a comment.

Both stand for library code that is not part of the program, so they state what is assumed of it.
-/

namespace ThreeAddress

/-- The terminal styles of listings and reports. -/
inductive TextStyle where
  | green
  | yellow
  | blue
  | magenta
  | cyan
  | white
  | brightRed
  | boldYellow
  deriving DecidableEq

/-- The parameters of the escape sequence that starts a style. -/
def TextStyle.parameters : TextStyle → List Char
  | .green => ['3', '2']
  | .yellow => ['3', '3']
  | .blue => ['3', '4']
  | .magenta => ['3', '5']
  | .cyan => ['3', '6']
  | .white => ['3', '7']
  | .brightRed => ['9', '1']
  | .boldYellow => ['1', ';', '3', '3']

namespace Terminal

/-- The character that opens an escape sequence. -/
def escape : Char := '\x1b'

/-- The escape sequence with the given parameters. -/
def sequence (parameters : List Char) : List Char :=
  escape :: '[' :: parameters ++ ['m']

/-- The escape sequence that ends every style. -/
def reset : List Char := sequence ['0']

/-- Inserts a text behind every reset; `pending` counts the characters of a reset that has been
recognised and not yet passed. -/
def afterResets (inserted : List Char) : Nat → List Char → List Char
  | _, [] => []
  | 0, c :: rest =>
    if reset.isPrefixOf (c :: rest) then c :: afterResets inserted (reset.length - 1) rest
    else c :: afterResets inserted 0 rest
  | 1, c :: rest => c :: (inserted ++ afterResets inserted 0 rest)
  | pending + 2, c :: rest => c :: afterResets inserted (pending + 1) rest

/-- A text in a style, as the library that colours texts is taken to write it: the sequence of the
style, the text with the style started again behind every reset in it, and a reset. -/
def wrap (style : TextStyle) (text : List Char) : List Char :=
  let start := sequence style.parameters
  start ++ afterResets start 0 text ++ reset

/-- Whether a character may stand among the parameters of an escape sequence. -/
def isParameter (c : Char) : Bool :=
  c.isDigit || c == ';'

/-- How many characters behind the escape character belong to its sequence, if a complete one
starts there. -/
def sequenceLength? : List Char → Option Nat
  | '[' :: rest =>
    let parameters := rest.takeWhile isParameter
    if (rest.drop parameters.length).head? = some 'm' then some (parameters.length + 2) else none
  | _ => none

/-- The characters below the space, but for the line feed, and those from `U+0080` to `U+009F`. -/
def isDroppedControl (c : Char) : Bool :=
  (decide (c.toNat < 0x20) && c != '\n') || decide (0x80 ≤ c.toNat ∧ c.toNat < 0xa0)

/-- Drops `skipped` characters, then removes escape sequences and control characters. -/
def dropControls : Nat → List Char → List Char
  | _, [] => []
  | skipped + 1, _ :: rest => dropControls skipped rest
  | 0, c :: rest =>
    if c = escape then dropControls ((sequenceLength? rest).getD 0) rest
    else if isDroppedControl c then dropControls 0 rest
    else c :: dropControls 0 rest

/-- A text without escape sequences and control characters; line feeds stay. This is how the library
that strips escape sequences is taken to behave. The only sequences that are recognised are those
that set a style: of any other, the escape character is dropped, and what follows it stays. -/
def withoutControls (text : String) : String :=
  String.ofList (dropControls 0 text.toList)

end Terminal

/-- A run of text in one style, or in none. -/
structure Span where
  /-- The style, if the run has one. -/
  style? : Option TextStyle
  /-- The characters of the run. -/
  text : String

/-- A run without a style. -/
def Span.plain (text : String) : Span := ⟨none, text⟩

/-- A run in a style. -/
def Span.styled (style : TextStyle) (text : String) : Span := ⟨some style, text⟩

/-- The text of a run, with colours on or off. -/
def Span.render (colour : Bool) (span : Span) : String :=
  match colour, span.style? with
  | true, some style => String.ofList (Terminal.wrap style span.text.toList)
  | _, _ => span.text

/-- Text with styles. -/
abbrev Styled := List Span

/-- The text of a sequence of runs, with colours on or off. -/
def Styled.render (colour : Bool) (spans : Styled) : String :=
  String.join (spans.map (Span.render colour))

/-- With colours off a run is its own text. -/
@[simp] theorem Span.render_false (span : Span) : span.render false = span.text := rfl

end ThreeAddress
