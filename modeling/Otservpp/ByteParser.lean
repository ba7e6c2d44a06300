import Otservpp.ByteMemory

/-! # Parsers of byte strings

A parser consumes a front of its input. `Reads p bs a` says that it consumes exactly `bs`, whatever
follows; the rules compose such facts along the text of a parser. -/
namespace ByteParser

open ByteMemory

abbrev Parser := StateT (List UInt8) Option

variable {α β : Type}

def byte : Parser UInt8
  | [] => none
  | b :: bs => some (b, bs)

def bytes (n : ℕ) : Parser (List UInt8) := fun bs =>
  if n ≤ bs.length then some (bs.take n, bs.drop n) else none

def expect (b : UInt8) : Parser Unit := do
  let c ← byte
  if c = b then pure () else failure

/-- A little-endian number of `w` bytes. -/
def number (w : ℕ) : Parser ℕ := do
  let bs ← bytes w
  pure (decodeLE bs)

/-- A string behind its 16-bit length. -/
def string : Parser (List UInt8) := do
  let n ← number 2
  bytes n

def many (p : Parser α) : ℕ → Parser (List α)
  | 0 => pure []
  | n + 1 => do
    let a ← p
    let as ← many p n
    pure (a :: as)

/-- The whole input, with nothing left over. -/
def parseAll (p : Parser α) (bs : List UInt8) : Option α :=
  match p bs with
  | some (a, []) => some a
  | _ => none

def Reads (p : Parser α) (bs : List UInt8) (a : α) : Prop := ∀ rest, p (bs ++ rest) = some (a, rest)

variable {p : Parser α} {f : α → Parser β} {xs ys : List UInt8} {a : α} {b : β}

theorem reads_pure (a : α) : Reads (pure a) [] a := fun _ => rfl

theorem Reads.bind (hp : Reads p xs a) (hf : Reads (f a) ys b) : Reads (p >>= f) (xs ++ ys) b := by
  intro rest
  change (p (xs ++ ys ++ rest)).bind (fun q => f q.1 q.2) = some (b, rest)
  rw [List.append_assoc, hp]
  exact hf rest

theorem Reads.done (hp : Reads p xs a) (hf : Reads (f a) [] b) : Reads (p >>= f) xs b := by
  rw [← List.append_nil xs]
  exact hp.bind hf

theorem Reads.parseAll (h : Reads p xs a) : parseAll p xs = some a := by
  have hall := h []
  rw [List.append_nil] at hall
  rw [ByteParser.parseAll, hall]

theorem reads_byte (b : UInt8) : Reads byte [b] b := fun _ => rfl

theorem reads_expect (b : UInt8) : Reads (expect b) [b] () :=
  (reads_byte b).done (by rw [if_pos rfl]; exact reads_pure ())

theorem reads_bytes (bs : List UInt8) : Reads (bytes bs.length) bs bs := by
  intro rest
  rw [bytes, if_pos (by simp), List.take_left, List.drop_left]

theorem reads_number {w v : ℕ} (h : v < 256 ^ w) : Reads (number w) (encodeLE w v) v := by
  have hbytes := reads_bytes (encodeLE w v)
  rw [length_encodeLE] at hbytes
  refine hbytes.done ?_
  rw [decode_encodeLE_of_lt h]
  exact reads_pure v

theorem reads_string {str : List UInt8} (h : str.length < 2 ^ 16) :
    Reads string (encodeLE 2 str.length ++ str) str :=
  (reads_number (by simpa using h)).bind (reads_bytes str)

theorem reads_many {enc : α → List UInt8} {as : List α} (h : ∀ a ∈ as, Reads p (enc a) a) :
    Reads (many p as.length) (as.flatMap enc) as := by
  induction as with
  | nil => exact reads_pure []
  | cons a as ih =>
    have hrest := ih fun c hc => h c (List.mem_cons_of_mem a hc)
    exact (h a List.mem_cons_self).bind (hrest.done (reads_pure (a :: as)))

end ByteParser
