import HeapAudit.Text.Basic

namespace HeapAudit.Text

def replacement : Char := Char.ofNat 0xFFFD

/-- For a first byte: how many bytes follow, the bits it gives, and the range of the second byte. -/
def lead? (b : Nat) : Option (Nat × Nat × Nat × Nat) :=
  if 0xC2 ≤ b ∧ b ≤ 0xDF then some (1, b - 0xC0, 0x80, 0xBF)
  else if b = 0xE0 then some (2, 0, 0xA0, 0xBF)
  else if b = 0xED then some (2, 13, 0x80, 0x9F)
  else if 0xE1 ≤ b ∧ b ≤ 0xEF then some (2, b - 0xE0, 0x80, 0xBF)
  else if b = 0xF0 then some (3, 0, 0x90, 0xBF)
  else if b = 0xF4 then some (3, 4, 0x80, 0x8F)
  else if 0xF1 ≤ b ∧ b ≤ 0xF3 then some (3, b - 0xF0, 0x80, 0xBF)
  else none

/-- A character begun but not finished: the bytes still owed, the bits so far, and the range of
the next byte. -/
structure Partial where
  owed : Nat
  bits : Nat
  low : Nat
  high : Nat

def start (done : Chars) (b : Nat) : Option Partial × Chars :=
  if b < 0x80 then (none, Char.ofNat b :: done)
  else match lead? b with
    | some (owed, bits, low, high) => (some ⟨owed, bits, low, high⟩, done)
    | none => (none, replacement :: done)

def decodeByte (state : Option Partial × Chars) (byte : UInt8) : Option Partial × Chars :=
  let b := byte.toNat
  match state with
  | (none, done) => start done b
  | (some p, done) =>
    if p.low ≤ b ∧ b ≤ p.high then
      let bits := p.bits * 64 + (b - 0x80)
      if p.owed ≤ 1 then (none, Char.ofNat bits :: done)
      else (some ⟨p.owed - 1, bits, 0x80, 0xBF⟩, done)
    else start (replacement :: done) b

/-- Reading never fails: each longest part that cannot be continued to a character is replaced by
one replacement character. -/
def decode (bytes : List UInt8) : Chars :=
  match bytes.foldl decodeByte (none, []) with
  | (none, done) => done.reverse
  | (some _, done) => (replacement :: done).reverse

/-- How many bytes a character takes. -/
def width (c : Char) : Nat :=
  let n := c.toNat
  if n < 0x80 then 1 else if n < 0x800 then 2 else if n < 0x10000 then 3 else 4

def encodeChar (c : Char) : List UInt8 :=
  let n := c.toNat
  let tail (shift : Nat) : UInt8 := UInt8.ofNat (0x80 + (n >>> shift) % 64)
  if n < 0x80 then [UInt8.ofNat n]
  else if n < 0x800 then [UInt8.ofNat (0xC0 + (n >>> 6)), tail 0]
  else if n < 0x10000 then [UInt8.ofNat (0xE0 + (n >>> 12)), tail 6, tail 0]
  else [UInt8.ofNat (0xF0 + (n >>> 18)), tail 12, tail 6, tail 0]

def encode (cs : Chars) : List UInt8 := cs.flatMap encodeChar

/-- Both forms of carriage return count as a newline. -/
def unifyNewlines (cs : Chars) : Chars :=
  (cs.foldl (fun (state : Bool × Chars) c =>
    if c = '\r' then (true, '\n' :: state.2)
    else if c = '\n' ∧ state.1 then (false, state.2)
    else (false, c :: state.2)) (false, [])).2.reverse

end HeapAudit.Text
