import Otservpp.FieldCodec
import Otservpp.Login

/-! # The arguments of `loadAccount`

The decrypted login block is the key, the account name and the password. The continuation reads
the last two in the arguments of one call, and the language does not say which argument is
evaluated first. -/
namespace Credentials

open ByteMemory Connection FieldCodec InMessage Login ProgramLogic

/-- The orders in which the arguments of a call with side effects may be evaluated; the two
evaluations do not interleave. -/
inductive ArgumentOrder where
  | leftToRight
  | rightToLeft
  deriving DecidableEq, Repr

section Continuation

variable {M α β : Type}

def evaluated (order : ArgumentOrder) (first : InM α) (second : InM β) : InM (α × β) :=
  match order with
  | .leftToRight => do
    let a ← first
    let b ← second
    pure (a, b)
  | .rightToLeft => do
    let b ← second
    let a ← first
    pure (a, b)

/-- `msg.getString(), msg.getString()` as the account name and the password of `loadAccount`. -/
def loadAccountArguments (order : ArgumentOrder) : InM (List UInt8 × List UInt8) :=
  evaluated order getString getString

/-- The handler of a successful decryption up to the call of `loadAccount`, with its arguments. -/
def decryptedLogin (order : ArgumentOrder) : LoginM M (List UInt8 × List UInt8) := do
  let xtea ← onMsg getXtea
  setXtea xtea
  onMsg (loadAccountArguments order)

end Continuation

section Specification

variable {M : Type}

def keyBytes (key : Fin 4 → UInt32) : List UInt8 :=
  (List.ofFn key).flatMap fun w => encodeLE 4 w.toNat

def stringBytes (str : List UInt8) : List UInt8 := encodeLE 2 str.length ++ str

def loginBlock (key : Fin 4 → UInt32) (accName password rest : List UInt8) : List UInt8 :=
  keyBytes key ++ (stringBytes accName ++ (stringBytes password ++ rest))

def Receives (order : ArgumentOrder) (s : Protocol M) (accName password : List UInt8) : Prop :=
  ∃ t, decryptedLogin order s = .ok (accName, password) t

end Specification

section Reading

variable {M : Type} {m : InMessage.Message} {key : Fin 4 → UInt32}
  {accName password rest ys : List UInt8}

theorem getXtea_remaining (h : Remaining m (keyBytes key ++ ys)) :
    ∃ m', getXtea m = .ok ⟨key⟩ m' ∧ Remaining m' ys := by
  have hwords : keyBytes key = encodeLE 4 (key 0).toNat ++ (encodeLE 4 (key 1).toNat ++
      (encodeLE 4 (key 2).toNat ++ encodeLE 4 (key 3).toNat)) := rfl
  simp only [hwords, List.append_assoc] at h
  obtain ⟨hread₀, h₁⟩ := getNumber_remaining (w := 4) (key 0).toNat_lt h
  obtain ⟨hread₁, h₂⟩ := getNumber_remaining (w := 4) (key 1).toNat_lt h₁
  obtain ⟨hread₂, h₃⟩ := getNumber_remaining (w := 4) (key 2).toNat_lt h₂
  obtain ⟨hread₃, h₄⟩ := getNumber_remaining (w := 4) (key 3).toNat_lt h₃
  refine ⟨_, ?_, h₄⟩
  rw [getXtea, getU32, bind_ok hread₀, bind_ok hread₁, bind_ok hread₂, bind_ok hread₃]
  have hkey : (fun i : Fin 4 => UInt32.ofNat ([(key 0).toNat, (key 1).toNat, (key 2).toNat,
      (key 3).toNat].getD i 0)) = key := by
    funext i
    obtain ⟨i, hi⟩ := i
    obtain rfl | rfl | rfl | rfl : i = 0 ∨ i = 1 ∨ i = 2 ∨ i = 3 := by omega
    · exact UInt32.ofNat_toNat
    · exact UInt32.ofNat_toNat
    · exact UInt32.ofNat_toNat
    · exact UInt32.ofNat_toNat
  rw [hkey]
  rfl

theorem stringBytes_remaining {str : List UInt8} (h : Remaining m (stringBytes str ++ ys)) :
    ∃ m', getString m = .ok str m' ∧ Remaining m' ys := by
  have hbound := h.bound
  have hextent := h.extent
  simp only [stringBytes, List.length_append] at hextent
  obtain ⟨m', hread, hrest, -⟩ := getString_remaining (by omega) h
  exact ⟨m', hread, hrest⟩

/-- The first string goes to the argument that is evaluated first. -/
theorem arguments_remaining (order : ArgumentOrder)
    (h : Remaining m (stringBytes accName ++ (stringBytes password ++ rest))) :
    ∃ m', loadAccountArguments order m = .ok
      (match order with
        | .leftToRight => (accName, password)
        | .rightToLeft => (password, accName)) m' := by
  obtain ⟨m₁, hfirst, h₁⟩ := stringBytes_remaining h
  obtain ⟨m₂, hsecond, -⟩ := stringBytes_remaining h₁
  refine ⟨m₂, ?_⟩
  cases order with
  | leftToRight => rw [loadAccountArguments, evaluated, bind_ok hfirst, bind_ok hsecond]; rfl
  | rightToLeft => rw [loadAccountArguments, evaluated, bind_ok hfirst, bind_ok hsecond]; rfl

theorem onMsg_ok {α : Type} {x : InM α} {s : Protocol M} {a : α} {m' : InMessage.Message}
    (h : x s.conn.inMsg = .ok a m') :
    onMsg x s = .ok a { s with conn := { s.conn with inMsg := m' } } := by
  rw [onMsg, h]

theorem decryptedLogin_block (order : ArgumentOrder) {s : Protocol M}
    (h : Remaining s.conn.inMsg (loginBlock key accName password rest)) :
    ∃ t, t.xtea = ⟨key⟩ ∧ decryptedLogin order s = .ok
      (match order with
        | .leftToRight => (accName, password)
        | .rightToLeft => (password, accName)) t := by
  obtain ⟨m₁, hkey, h₁⟩ := getXtea_remaining h
  obtain ⟨m₂, hargs⟩ := arguments_remaining order h₁
  let t : Protocol M := { s with conn := { s.conn with inMsg := m₁ }, xtea := ⟨key⟩ }
  refine ⟨{ t with conn := { t.conn with inMsg := m₂ } }, rfl, ?_⟩
  rw [decryptedLogin, bind_ok (onMsg_ok hkey)]
  change onMsg (loadAccountArguments order) t = _
  exact onMsg_ok hargs

end Reading

section Order

variable {M : Type} {s : Protocol M} {key : Fin 4 → UInt32} {accName password rest : List UInt8}

/-- For every block the account name and the password come out as they were sent if the arguments
are evaluated from left to right or the two strings are equal, and otherwise not. -/
theorem credential_order_iff (order : ArgumentOrder)
    (h : Remaining s.conn.inMsg (loginBlock key accName password rest)) :
    Receives order s accName password ↔ order = .leftToRight ∨ accName = password := by
  obtain ⟨t, -, hrun⟩ := decryptedLogin_block order h
  unfold Receives
  rw [hrun]
  cases order with
  | leftToRight => simp
  | rightToLeft =>
    constructor
    · rintro ⟨t', hresult⟩
      injection hresult with hpair
      exact Or.inr (Prod.mk.inj hpair).2
    · rintro (horder | rfl)
      · cases horder
      · exact ⟨t, rfl⟩

def shortBlock : List UInt8 := loginBlock (fun _ => 0) [97] [98] []

def shortLogin : Protocol OutMessage.Message :=
  { loginState with conn := { loginState.conn with inMsg :=
      ⟨write (fun _ => 0) 0 shortBlock, 0, shortBlock.length⟩ } }

theorem shortLogin_remaining : Remaining shortLogin.conn.inMsg shortBlock :=
  ⟨slice_write_same _ _ _, Nat.zero_add _, by decide⟩

theorem credential_order_left_to_right : Receives .leftToRight shortLogin [97] [98] :=
  (credential_order_iff .leftToRight shortLogin_remaining).mpr (Or.inl rfl)

/-- From right to left the name is looked up as the password. -/
theorem credentials_swapped :
    Remaining shortLogin.conn.inMsg shortBlock ∧ ¬ Receives .rightToLeft shortLogin [97] [98] := by
  refine ⟨shortLogin_remaining, ?_⟩
  obtain ⟨t, -, hrun⟩ := decryptedLogin_block .rightToLeft shortLogin_remaining
  rintro ⟨t', hresult⟩
  rw [hrun] at hresult
  injection hresult with hpair
  exact absurd hpair (by decide)

end Order

end Credentials
