import Esp32S31.Lib.Text
import Esp32S31.Pinctrl.Registers

/-!
# The board and its snapshot

`board.c` of the tool `pinctrl`: the headers for `-p`, the line names and the reserved and used
lines, and the text of a snapshot, which `snapshot_dump` writes and `snapshot_load` reads line by
line.
-/

namespace Esp32S31.Pinctrl

open Esp32S31.Lib Esp32S31.Lib.Text

/-- `NAME_LEN`. -/
def nameLen : Nat := 32

/-- `struct pad_range`: pins `first` to `last` with the GPIOs from `gpio` on, or without one. -/
structure PadRange where
  first : Nat
  last : Nat
  gpio : Option Nat
  label : String := ""

/-- `struct header`. -/
structure Header where
  compatible : String
  ranges : List PadRange

/-- The pads of the ESP32-S31-WROOM-3 module. -/
def wroom3 : List PadRange :=
  [⟨1, 2, none, "gnd"⟩, ⟨3, 4, none, "3v3"⟩, ⟨5, 5, none, "en"⟩, ⟨6, 6, some 2, ""⟩,
    ⟨7, 7, some 3, ""⟩, ⟨8, 8, some 0, ""⟩, ⟨9, 9, some 1, ""⟩, ⟨10, 25, some 4, ""⟩,
    ⟨26, 26, none, "gnd"⟩, ⟨27, 32, some 20, ""⟩, ⟨33, 39, none, "nc"⟩, ⟨40, 40, none, "usb_dp"⟩,
    ⟨41, 41, none, "usb_dm"⟩, ⟨42, 46, some 33, ""⟩, ⟨47, 48, none, "gnd"⟩, ⟨49, 51, some 38, ""⟩,
    ⟨52, 67, some 42, ""⟩, ⟨68, 71, some 58, ""⟩, ⟨72, 90, none, "gnd"⟩, ⟨91, 91, none, "nc"⟩,
    ⟨92, 94, none, "gnd"⟩, ⟨95, 95, none, "epad"⟩, ⟨96, 99, none, "gnd"⟩]

/-- Header J2 of the ESP32-S31-Function-CoreBoard-1. -/
def j2 : List PadRange :=
  [⟨1, 2, none, "gnd"⟩, ⟨3, 3, some 58, ""⟩, ⟨4, 4, some 59, ""⟩, ⟨5, 5, some 61, ""⟩,
    ⟨6, 6, some 60, ""⟩, ⟨7, 7, some 2, ""⟩, ⟨8, 8, none, "gnd"⟩, ⟨9, 9, some 0, ""⟩,
    ⟨10, 10, some 3, ""⟩, ⟨11, 11, some 49, ""⟩, ⟨12, 12, some 1, ""⟩, ⟨13, 13, some 47, ""⟩,
    ⟨14, 14, some 48, ""⟩, ⟨15, 15, some 45, ""⟩, ⟨16, 16, some 46, ""⟩, ⟨17, 17, some 43, ""⟩,
    ⟨18, 18, some 44, ""⟩, ⟨19, 19, some 40, ""⟩, ⟨20, 20, some 42, ""⟩, ⟨21, 21, some 39, ""⟩,
    ⟨22, 22, some 38, ""⟩, ⟨23, 23, some 37, ""⟩, ⟨24, 24, some 36, ""⟩, ⟨25, 25, some 35, ""⟩,
    ⟨26, 31, some 20, ""⟩, ⟨32, 32, some 4, ""⟩, ⟨33, 34, none, "gnd"⟩, ⟨35, 36, none, "3v3"⟩,
    ⟨37, 38, none, "gnd"⟩, ⟨39, 40, none, "5v"⟩]

def headers : List Header :=
  [⟨"esp,esp32s31-function-coreboard-1", j2⟩, ⟨"esp,esp32s31-korvo-1", wroom3⟩,
    ⟨"esp,esp32s31-wroom-3", wroom3⟩]

/-- A header of the table. -/
abbrev KnownHeader := { h : Header // h ∈ headers }

/-- `board_header`. -/
def boardHeader (compatible : Bytes) : Option KnownHeader :=
  headers.attach.find? fun h => ascii h.val.compatible = compatible

/-- `struct board`. -/
structure Board where
  compatible : Bytes
  model : Bytes
  names : Nat → Bytes
  reserved : BitVec 64
  used : BitVec 64
  haveLines : Bool
  hdr : Option KnownHeader

/-- `copy_str`: cut to `len - 1` bytes. -/
def copyStr (len : Nat) (src : Bytes) : Bytes := if src.length < len then src else src.take
    (len - 1)

/-- `board_init`. -/
def boardInit : Board := ⟨[], [], fun _ => [], 0#64, 0#64, false, none⟩

/-- `header_npads`. -/
def headerNpads (h : KnownHeader) : Nat := (h.val.ranges.getLast?.map (·.last)).getD 0

/-- What a number of the header is. -/
inductive Pad where
  | gpio (n : Nat)
  /-- -1 -/
  | other (label : String)
  /-- -2 -/
  | noSuch
  deriving DecidableEq

/-- `pad_gpio`. -/
def padGpio (hdr : Option KnownHeader) (pad : Nat) : Pad :=
  match hdr.bind fun h => h.val.ranges.find? fun pr => pr.first ≤ pad && pad ≤ pr.last with
  | none => .noSuch
  | some pr =>
    match pr.gpio with
    | none => .other pr.label
    | some g => .gpio (g + (pad - pr.first))

/-- `gpio_pad`. -/
def gpioPad (hdr : Option KnownHeader) (gpio : Nat) : Option Nat :=
  hdr.bind fun h => (List.range' 1 (headerNpads h)).find? fun pad => padGpio hdr pad = .gpio gpio

/-- `%u`. -/
def decimal (n : Nat) : Bytes := (Nat.toDigits 10 n).map fun c => UInt8.ofNat c.toNat

/-- `gpio_name` with a buffer of `len` bytes. -/
def gpioName (b : Board) (gpio len : Nat) : Bytes :=
  let full := ascii "GPIO" ++ decimal gpio
  (if b.names gpio = [] then full else b.names gpio ++ ascii "/" ++ full).take (len - 1)

/-- The parts that the loop of `gpio_by_name` compares: none behind a slash at the end. -/
def nameParts (p : Bytes) : List Bytes :=
  if h : p = [] then []
  else p.takeWhile (· ≠ 0x2f) :: nameParts ((p.dropWhile (· ≠ 0x2f)).drop 1)
termination_by p.length
decreasing_by
  have := (List.dropWhile_sublist (fun c : UInt8 => decide (c ≠ 0x2f)) (l := p)).length_le
  have := List.length_pos_iff.mpr h
  rw [List.length_drop]
  omega

/-- `gpio_by_name`: each part of `NAME/GPIOn` names the GPIO. -/
def gpioByName (b : Board) (name : Bytes) : Option Nat :=
  (List.range npins).find? fun gpio => pinExists gpio && name ∈ nameParts
    (gpioName b gpio (nameLen + 16))

/-! ## Snapshots -/

/-- The loop of `load_words` for `n` words. -/
def loadRow : Nat → Nat → Page → Bytes → Option Page
  | 0, _, page, _ => some page
  | n + 1, i, page, args =>
    match sscanfHex args with
    | none => none
    | some (x, args) => loadRow n (i + 1) (Function.update page i x) args

/-- `load_words`. -/
def loadWords (page : Page) (args : Bytes) : Option Page :=
  match sscanfHex args with
  | none => none
  | some (off, args) =>
    if off.toNat % 32 ≠ 0 ∨ off.toNat / 4 + 8 > pageWords then none
    else loadRow 8 (off.toNat / 4) page args

/-- The loop of `load_names`: `n` GPIOs from `gpio` on. -/
def loadNamesFrom : Nat → Nat → (Nat → Bytes) → Option Bytes → Nat → Bytes
  | 0, _, names, _ => names
  | _ + 1, _, names, none => names
  | n + 1, gpio, names, some list =>
    let item := list.takeWhile (· ≠ comma)
    let rest :=
      match list.dropWhile (· ≠ comma) with
      | [] => none
      | _ :: rest => some rest
    loadNamesFrom n (gpio + 1) (Function.update names gpio (copyStr nameLen item)) rest

/-- `load_names`. -/
def loadNames (b : Board) (list : Bytes) : Board :=
  { b with names := loadNamesFrom npins 0 b.names (some list) }

/-- `load_line`: the key ends at the first space. -/
def loadLine (line : Bytes) (r : Regs) (b : Board) : Option (Regs × Board) :=
  let key := line.takeWhile (· ≠ space)
  let args := (line.dropWhile (· ≠ space)).drop 1
  if key = ascii "compatible" then some (r, { b with compatible := copyStr 64 args })
  else if key = ascii "model" then some (r, { b with model := copyStr 96 args })
  else if key = ascii "names" then some (r, loadNames b args)
  else if key = ascii "reserved" then some (r, { b with reserved := strtoul 64 args })
  else if key = ascii "used" then some (r, { b with used := strtoul 64 args })
  else if key = ascii "cnnt" then some ({ r with cnnt := strtoul 32 args }, b)
  else if key = ascii "iomux" then (loadWords r.iomux args).map fun p => ({ r with iomux := p }, b)
  else if key = ascii "gpio" then (loadWords r.gpio args).map fun p => ({ r with gpio := p }, b)
  else if key.head? ≠ some 0x23 ∧ key ≠ [] then none
  else some (r, b)

/-- The buffer of a line: the names line is the longest. -/
def lineLen : Nat := npins * nameLen + 16

/-- Why `snapshot_load` fails. -/
inductive LoadError where
  /-- `-errno` of `fopen` -/
  | open (errno : Nat)
  /-- `-EINVAL`: `<path>:<lineno>: not a snapshot line` -/
  | line (lineno : Nat)
  deriving DecidableEq

/-- The loop of `snapshot_load`, behind `lineno` lines. -/
def loadLines (lineno : Nat) (f : Bytes) (r : Regs) (b : Board) : Except LoadError (Regs × Board) :=
  match h : fgets lineLen f with
  | none => .ok (r, b)
  | some (line, rest) =>
    match loadLine ((cstr line).takeWhile (· ≠ newline)) r b with
    | none => .error (.line (lineno + 1))
    | some (r, b) => loadLines (lineno + 1) rest r b
termination_by f.length
decreasing_by exact fgets_length (by decide) h

/-- `snapshot_load`: the file, or the error of its `fopen`. The pages of a snapshot start as zero.
-/
def snapshotLoad (file : Except Nat Bytes) (r : Regs) (b : Board) : Except LoadError
    (Regs × Board) :=
  match file with
  | .error errno => .error (.open errno)
  | .ok f =>
    match loadLines 0 f { r with live := false, iomux := fun _ => 0#32, gpio := fun _ => 0#32 }
      b with
    | .error e => .error e
    | .ok (r, b) => .ok (r, { b with haveLines := true, hdr := boardHeader b.compatible })

/-- A line of `dump_page`. -/
def dumpRow (name : String) (page : Page) (off : Nat) : Bytes :=
  ascii name ++ space :: hex 3 off ++
    ((List.range 8).flatMap fun i => space :: hex 8 (page (off / 4 + i)).toNat) ++ [newline]

/-- `dump_page`. -/
def dumpPage (name : String) (page : Page) : Bytes :=
  (List.range (pageWords * 4 / 32)).flatMap fun k => dumpRow name page (32 * k)

/-- `snapshot_dump`. -/
def snapshotDump (r : Regs) (b : Board) : Bytes :=
  ascii "# esp32s31-pinctrl snapshot 1" ++ [newline] ++
  ascii "compatible " ++ b.compatible ++ [newline] ++ ascii "model " ++ b.model ++ [newline] ++
  ascii "names " ++
  ((List.range npins).flatMap fun gpio => (if gpio = 0 then [] else [comma]) ++ b.names gpio) ++
  [newline] ++ ascii "reserved " ++ hex 16 b.reserved.toNat ++ [newline] ++
  ascii "used " ++ hex 16 b.used.toNat ++ [newline] ++
  ascii "cnnt " ++ hex 8 r.cnnt.toNat ++ [newline] ++
  dumpPage "iomux" r.iomux ++ dumpPage "gpio" r.gpio

end Esp32S31.Pinctrl
