/-!
# Terminal styles

Text in the colours of a terminal: a control sequence that starts the style,
the text, and the sequence that resets it. Where the text itself resets the
style (because a part of it was painted before), the style is started again.

`plain` is what is left of a text on paper: control sequences are taken out,
and of the control characters only the line feed stays. The string of a device
is the one place where a terminal looks at the bytes of a character
(`Scan.stepDevice`).
-/

namespace Clausal.Text

/-- A style of a terminal, by the parameters of the sequence that starts it. -/
inductive Style where
  | red | green | yellow | blue | magenta | cyan | white | dim | boldRed
deriving DecidableEq, Repr

def Style.parameters : Style → String
  | .red => "31"
  | .green => "32"
  | .yellow => "33"
  | .blue => "34"
  | .magenta => "35"
  | .cyan => "36"
  | .white => "37"
  | .dim => "90"
  | .boldRed => "1;31"

/-- The sequence that starts a style. -/
def Style.start (s : Style) : String := "\x1b[" ++ s.parameters ++ "m"

/-- The sequence that ends every style. -/
def reset : String := "\x1b[0m"

/-- `text` in the given style, on a terminal that shows colours. -/
def paint (colours : Bool) (style : Style) (text : String) : String :=
  if colours then
    style.start ++ text.replace reset (reset ++ style.start) ++ reset
  else text

/-- What a reader of terminal output is in the middle of. -/
inductive Scan where
  /-- Text. -/
  | ground
  /-- After the escape character. -/
  | escape
  /-- An escape sequence whose last character is still to come. -/
  | escapeTail
  /-- A control sequence whose last character is still to come. -/
  | control
  /-- A string for a device whose name is still to come: nothing of it yet. -/
  | deviceStart
  /-- Parameters before the name of a device. -/
  | deviceParams
  /-- Intermediate characters before the name of a device. -/
  | deviceTail
  /-- A string for a device. -/
  | device
  /-- A string for no device, or a privacy message. -/
  | message
  /-- An operating system command. -/
  | command
deriving DecidableEq, Repr

/-- What a reader shows of a character that is cut after the byte that ends
    the string of a device: the bytes left over stand for no character. -/
def leftover (bytes : List UInt8) : List Char :=
  bytes.filterMap fun b => if b ≤ 0x9f then none else some '\ufffd'

/-- A step within the string of a device. The byte 9C ends it, also where it
    is a part of a character. -/
def Scan.stepDevice (c : Char) : List Char × Scan :=
  match (String.utf8EncodeChar c).dropWhile (· != 0x9c) with
  | [] => ([], .device)
  | _ :: bytes => (leftover bytes, .ground)

/-- What a reader of terminal output shows of a character, and what it is in
    the middle of afterwards. -/
def Scan.step (s : Scan) (c : Char) : List Char × Scan :=
  let n := c.toNat
  let shown := if c = '\n' then [c] else []
  match s with
  | .ground =>
    if n = 0x1b then ([], .escape)
    else if n < 0x20 || (0x80 ≤ n && n < 0xa0) then (shown, .ground)
    else ([c], .ground)
  | .escape =>
    if n = 0x1b then ([], .escape)
    else if n = 0x18 || n = 0x1a then ([], .ground)
    else if n < 0x20 then (shown, .escape)
    else if n < 0x30 then ([], .escapeTail)
    else if c = '[' then ([], .control)
    else if c = ']' then ([], .command)
    else if c = 'P' then ([], .deviceStart)
    else if c = 'X' || c = '^' || c = '_' then ([], .message)
    else if n < 0x7f then ([], .ground)
    else ([], .escape)
  | .escapeTail =>
    if n = 0x1b then ([], .escape)
    else if n = 0x18 || n = 0x1a then ([], .ground)
    else if n < 0x20 then (shown, .escapeTail)
    else if 0x30 ≤ n && n < 0x7f then ([], .ground)
    else ([], .escapeTail)
  | .control =>
    if n = 0x1b then ([], .escape)
    else if n = 0x18 || n = 0x1a then ([], .ground)
    else if n < 0x20 then (shown, .control)
    else if 0x40 ≤ n && n < 0x7f then ([], .ground)
    else ([], .control)
  | .deviceStart =>
    if n = 0x1b then ([], .escape)
    else if n = 0x18 || n = 0x1a then ([], .ground)
    else if n < 0x20 || 0x7f ≤ n then ([], .deviceStart)
    else if n < 0x30 then ([], .deviceTail)
    else if n < 0x40 then ([], .deviceParams)
    else ([], .device)
  | .deviceParams =>
    if n = 0x1b then ([], .escape)
    else if n = 0x18 || n = 0x1a then ([], .ground)
    else if n < 0x20 || 0x7f ≤ n then ([], .deviceParams)
    else if n < 0x30 then ([], .deviceTail)
    else if n < 0x3c then ([], .deviceParams)
    else if n < 0x40 then ([], .message)
    else ([], .device)
  | .deviceTail =>
    if n = 0x1b then ([], .escape)
    else if n = 0x18 || n = 0x1a then ([], .ground)
    else if n < 0x30 || 0x7f ≤ n then ([], .deviceTail)
    else if n < 0x40 then ([], .message)
    else ([], .device)
  | .device =>
    if n = 0x1b then ([], .escape)
    else if n = 0x18 || n = 0x1a then ([], .ground)
    else stepDevice c
  | .message =>
    if n = 0x1b then ([], .escape)
    else if n = 0x18 || n = 0x1a then ([], .ground)
    else ([], .message)
  | .command =>
    if n = 0x1b then ([], .escape)
    else if n = 0x07 || n = 0x18 || n = 0x1a then ([], .ground)
    else ([], .command)

/-- The characters that are shown of a text, read from the given state on. -/
def Scan.run : Scan → List Char → List Char
  | _, [] => []
  | s, c :: cs => (s.step c).1 ++ Scan.run (s.step c).2 cs

/-- A text without control sequences and control characters, line feeds
    apart. -/
def plain (s : String) : String := String.ofList (Scan.ground.run s.toList)

end Clausal.Text
