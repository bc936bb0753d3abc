import EightBit.Debugger
import EightBit.Debugger.Canvas
import EightBit.Text.Line
import EightBit.Text.Wrap

/-!
# EightBit.Debugger.Screen -- the panes of a debugger and where they lie

Six panes in two columns. On the left, in 45 hundredths of the width: the disassembly from the
program counter, the registers, and the status. On the right: memory, output, and help. The first
pane of a column takes the height that the other two leave.

The output pane selects the last *lines* of the console and then breaks those that are too long,
so a long line may push the end of the console out of the pane.
-/

namespace EightBit

namespace Debugger

/-! ## Left column -/

/-- A line of the disassembly; the current one and those with a breakpoint stand out. -/
def disassemblyRow (d : Debugger) (width : Nat) (line : WindowLine) : Row :=
  let marked := d.breakpoints.contains line.address
  let style :=
    if line.current then Style.strong .yellow else if marked then Style.of .red else Style.plain
  let text := (if marked then "●" else " ") ++ " " ++ (if line.current then "▶ " else "  ")
    ++ Text.hex line.address ++ ": " ++ line.code.text
  (Row.ofText style text).fit width style

/-- The pane of the instructions from the program counter on. -/
def disassemblyPane (d : Debugger) (width height : Nat) : Pane where
  title := " Disassembly "
  border := Style.of .cyan
  fill := Style.plain
  rows := (d.window (height - 2)).map (d.disassemblyRow (width - 2))

/-- A register with its role, its value in hexadecimal, and its value in decimal. -/
def registerText (r : Registers) (i : RegisterIndex) : String :=
  let role :=
    if i = interruptMask then "IM" else if i = interruptStatus then "IS"
    else if i = stackPointer then "SP" else "  "
  let value := r.get i
  "R" ++ toString i.val ++ " " ++ role ++ " " ++ Text.hexByte value ++ " ("
    ++ Text.padLeft 3 (toString value.toNat) ++ ")  "

/-- The flags as the letters `LGE`, with a dash for one that is not set. -/
def flagLetters (f : Flags) : String :=
  String.ofList
    [if f.less then 'L' else '-', if f.greater then 'G' else '-', if f.equal then 'E' else '-']

/-- The pane of the registers and the machine's state. -/
def registersPane (d : Debugger) : Pane where
  title := " Registers "
  border := Style.of .green
  fill := Style.plain
  rows :=
    let m := d.machine
    let pairs : List (RegisterIndex × RegisterIndex) :=
      (List.finRange 4).map fun i => (i.castAdd 4, i.addNat 4)
    let plain := Row.ofText Style.plain
    let coloured (colour : Colour) := Row.ofText (Style.of colour)
    pairs.map (fun (i, j) => plain (registerText m.regs i ++ registerText m.regs j))
      ++ [plain "PC: " ++ coloured .yellow (Text.hex m.regs.pc)
            ++ plain "   IR: " ++ coloured .white (Text.hexByte m.regs.ir)
            ++ plain "   FL: " ++ coloured .magenta (flagLetters m.regs.fl)
            ++ plain "   IE: " ++ plain (if m.regs.interruptsEnabled then "on" else "off"),
          plain "Cycles: " ++ coloured .cyan (toString m.cycles.toNat)
            ++ plain "   State: "
            ++ coloured (if m.isHalted then .red else .green) m.phase.name]

/-- The pane of the status. -/
def statusPane (d : Debugger) : Pane where
  title := " Status "
  border := Style.of .white
  fill := Style.of .white
  rows := [Row.ofText (Style.of .white) d.status.text]

/-! ## Right column -/

/-- The style of a memory cell: the program counter and the stack pointer stand out, and so do cells
that do not hold zero. -/
def cellStyle (d : Debugger) (address : Nat) (value : UInt8) : Style :=
  if address = d.machine.regs.pc then Style.strong .yellow
  else if address = d.machine.regs.sp.toNat then Style.strong .cyan
  else if value != 0 then Style.of .white
  else Style.of .darkGray

/-- Sixteen cells of memory; the row of the program counter says what its byte is. -/
def memoryRow (d : Debugger) (index : Nat) : Row :=
  let base := index * 16
  let pc := d.machine.regs.pc
  let cells := (d.machine.mem.dump base 16).flatMap fun (address, value) =>
    Row.ofText (d.cellStyle address value) (Text.hexByte value ++ " ")
  let note :=
    if base ≤ pc ∧ pc < base + 16 then
      match d.machine.mem.peek pc with
      | .ok byte => " ◀ " ++ describeByte byte
      | .error _ => ""
    else ""
  Row.ofText (Style.of .darkGray) (Text.hex base ++ ": ") ++ cells ++ Row.ofText Style.plain note

/-- The pane of the memory rows from the scroll position on. -/
def memoryPane (d : Debugger) (height : Nat) : Pane where
  title := " Memory "
  border := Style.of .magenta
  fill := Style.plain
  rows := (((List.range memoryRows).drop d.scroll).take (height - 2)).map d.memoryRow

/-- The console lines that an output pane with `rows` rows selects: the last so many. -/
def consoleTail (d : Debugger) (rows : Nat) : List (List Char) :=
  let lines := Text.lines d.console.toList
  lines.drop (lines.length - rows)

/-- The cells of a row of output; a character that takes no column has no cell. -/
def outputRow (row : List Char) : Row :=
  (row.filter fun c => Text.columns c != 0).map (⟨·, Style.plain⟩)

/-- The pane of the console. The selected lines are put together to a text and read as lines again,
so a carriage return before the end of any but the last of them belongs to the line's ending. -/
def outputPane (d : Debugger) (width height : Nat) : Pane where
  title := " Output "
  border := Style.plain
  fill := Style.plain
  rows :=
    let text := ['\n'].intercalate (d.consoleTail (height - 2))
    ((Text.lines text).flatMap (Text.wrap (width - 2))).map outputRow

/-- The pane of the keys. -/
def helpPane : Pane where
  title := " Help "
  border := Style.of .darkGray
  fill := Style.of .darkGray
  rows :=
    ["s: Step  r: Run  p: Pause  b: Breakpoint", "x: Reset  ↑↓: Scroll memory  q: Quit"].map
      (Row.ofText (Style.of .darkGray))

/-! ## Layout -/

/-- The whole screen. -/
def screen (d : Debugger) (width height : Nat) : List Row :=
  let leftWidth := width * 45 / 100
  let rightWidth := width - leftWidth
  let codeHeight := height - 11
  let memoryHeight := height - 12
  let left := (d.disassemblyPane leftWidth codeHeight).draw leftWidth codeHeight
    ++ d.registersPane.draw leftWidth 8 ++ d.statusPane.draw leftWidth 3
  let right := (d.memoryPane memoryHeight).draw rightWidth memoryHeight
    ++ (d.outputPane rightWidth 8).draw rightWidth 8 ++ helpPane.draw rightWidth 4
  List.zipWith (· ++ ·) left right

end Debugger

end EightBit
