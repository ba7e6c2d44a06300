import Mathlib.Algebra.Group.Action.Defs
import Mathlib.Algebra.Order.BigOperators.Group.List
import Mathlib.Data.Nat.Digits.Defs
import Otservpp.ByteParser
import Otservpp.Login
import Otservpp.WireFormat

/-! # The character list

What `sendCharacterList` makes of the succeed hook's result: a message that can be read back in one
way only, or, for a list that its count byte cannot hold, a dropped connection. -/
namespace CharacterList

open ByteMemory ByteParser Connection Lifecycle Login OutMessage ProgramLogic WireFormat

structure Character where
  name : List UInt8
  world : List UInt8
  ip : UInt32
  port : UInt16
  deriving DecidableEq, Repr

/-- `AccountLoginSucceedResult::type` without `PremiumEnd`, which the protocol does not read. -/
structure SucceedResult where
  motdId : Int64
  motd : List UInt8
  characterList : List Character
  deriving DecidableEq, Repr

def newline : UInt8 := 10

def digits (n : ℕ) : List UInt8 :=
  if n = 0 then [48] else (Nat.digits 10 n).reverse.map fun d => UInt8.ofNat (48 + d)

/-- `lexical_cast<string>` of a signed number. -/
def decimal (n : ℤ) : List UInt8 := if n < 0 then 45 :: digits n.natAbs else digits n.natAbs

def SucceedResult.motdLine (res : SucceedResult) : List UInt8 :=
  decimal res.motdId.toInt ++ newline :: res.motd

def SucceedByte : UInt8 := 0x14
def CharacterListByte : UInt8 := 0x64

def Character.ops (c : Character) : List AddOp :=
  [.addString c.name, .addString c.world, .addU32 c.ip, .addU16 c.port]

def SucceedResult.ops (res : SucceedResult) : List AddOp :=
  [.addByte SucceedByte, .addString res.motdLine, .addByte CharacterListByte,
    .addByte (UInt8.ofNat res.characterList.length)] ++ res.characterList.flatMap Character.ops

section Protocol

variable (cfg : Config OutMessage.Message)

/-- `StandardProtocol::sendAndStop` -/
def sendAndStop (out : OutMessage.Message) : LoginM OutMessage.Message Unit := do
  let s ← get
  match (SendPath.encrypted s.xtea).prepare cfg.ndebug out with
  | .ok _ prepared => onConn (viaConnection (Connection.sendAndStop cfg prepared))
  | .error _ _ => throw .crash

/-- The try block: the peer's address is an argument of the hook, `none` a hook that throws. -/
def callHook (hook : Option SucceedResult) : LoginM OutMessage.Message (Option SucceedResult) :=
  tryCatch
    (do
      onConn (viaConnection (remoteEndpoint cfg))
      match hook with
      | some res => pure (some res)
      | none => throw .exception)
    fun
    | .crash => throw .crash
    | .exception | .packetException => do
      dropConnection cfg
      pure none

def sendCharacterList (uninitialised : Memory) (hook : Option SucceedResult) :
    LoginM OutMessage.Message Unit := do
  match ← callHook cfg hook with
  | none => pure ()
  | some res =>
    if 255 < res.characterList.length then dropConnection cfg
    else
      match build res.ops (standardOutMessage uninitialised) with
      | .ok _ out => sendAndStop cfg out
      | .error _ _ => throw .crash

end Protocol

section Format

def character : Parser Character := do
  let name ← string
  let world ← string
  let ip ← number 4
  let port ← number 2
  pure ⟨name, world, UInt32.ofNat ip, UInt16.ofNat port⟩

/-- The motd line, the count byte and the records. -/
def packet : Parser (List UInt8 × UInt8 × List Character) := do
  expect 0x14
  let line ← string
  expect 0x64
  let count ← byte
  let characters ← many character count.toNat
  pure (line, count, characters)

/-- What stands before the first newline, and what behind it. -/
def splitLine (line : List UInt8) : List UInt8 × List UInt8 :=
  (line.takeWhile (· ≠ newline), (line.dropWhile (· ≠ newline)).drop 1)

/-- Every string fits its length field, also the combined line. -/
structure Short (res : SucceedResult) : Prop where
  line : res.motdLine.length < 2 ^ 16
  names : ∀ c ∈ res.characterList, c.name.length < 2 ^ 16 ∧ c.world.length < 2 ^ 16

variable {res other : SucceedResult}

theorem digit_bounds {n : ℕ} {b : UInt8} (h : b ∈ digits n) : 48 ≤ b.toNat ∧ b.toNat < 58 := by
  unfold digits at h
  split at h
  · obtain rfl := List.mem_singleton.mp h
    decide
  · obtain ⟨d, hd, rfl⟩ := List.mem_map.mp h
    have hlt := Nat.digits_lt_base (by decide) (List.mem_reverse.mp hd)
    rw [UInt8.toNat_ofNat']
    omega

def digitsValue (bs : List UInt8) : ℕ := Nat.ofDigits 10 (bs.reverse.map fun b => b.toNat - 48)

theorem digitsValue_digits : Function.LeftInverse digitsValue digits := by
  intro n
  unfold digits
  split
  · next hzero =>
    subst hzero
    rfl
  · have hback : ((Nat.digits 10 n).map fun d => (UInt8.ofNat (48 + d)).toNat - 48) =
        Nat.digits 10 n := by
      conv_rhs => rw [← List.map_id (Nat.digits 10 n)]
      apply List.map_congr_left
      intro d hd
      have hlt := Nat.digits_lt_base (by decide) hd
      rw [UInt8.toNat_ofNat', id_eq]
      omega
    rw [digitsValue, ← List.map_reverse, List.reverse_reverse, List.map_map]
    exact (congrArg (Nat.ofDigits 10) hback).trans (Nat.ofDigits_digits 10 n)

theorem decimal_injective : Function.Injective decimal := by
  have hsign (k : ℕ) (bs : List UInt8) : digits k ≠ 45 :: bs := by
    intro h
    have hbounds := digit_bounds (n := k) (b := 45) (by rw [h]; exact List.mem_cons_self)
    exact absurd hbounds.1 (by decide)
  intro m n h
  unfold decimal at h
  split at h <;> split at h
  · have habs := digitsValue_digits.injective (List.cons.inj h).2
    omega
  · exact absurd h.symm (hsign _ _)
  · exact absurd h (hsign _ _)
  · have habs := digitsValue_digits.injective h
    omega

theorem newline_not_mem_decimal (n : ℤ) : newline ∉ decimal n := by
  intro h
  unfold decimal at h
  split at h
  · rcases List.mem_cons.mp h with hsign | hdigit
    · exact absurd hsign (by decide)
    · exact absurd (digit_bounds hdigit).1 (by decide)
  · exact absurd (digit_bounds h).1 (by decide)

theorem splitLine_motdLine (res : SucceedResult) :
    splitLine res.motdLine = (decimal res.motdId.toInt, res.motd) := by
  have hpass : ∀ b ∈ decimal res.motdId.toInt, decide (b ≠ newline) = true := by
    intro b hb
    rw [decide_eq_true_eq]
    rintro rfl
    exact newline_not_mem_decimal _ hb
  rw [splitLine, SucceedResult.motdLine, List.takeWhile_append_of_pos hpass,
    List.dropWhile_append_of_pos hpass]
  simp

theorem character_reads {c : Character} (h : c.name.length < 2 ^ 16 ∧ c.world.length < 2 ^ 16) :
    Reads character (payload c.ops) c := by
  have hip : Reads (number 4) (encodeLE 4 c.ip.toNat) c.ip.toNat := reads_number c.ip.toNat_lt
  have hport : Reads (number 2) (encodeLE 2 c.port.toNat) c.port.toNat :=
    reads_number c.port.toNat_lt
  have hlast : Reads (pure ⟨c.name, c.world, UInt32.ofNat c.ip.toNat, UInt16.ofNat c.port.toNat⟩)
      [] c := by
    rw [UInt32.ofNat_toNat, UInt16.ofNat_toNat]
    exact reads_pure c
  have hpayload : payload c.ops = (encodeLE 2 c.name.length ++ c.name) ++
      ((encodeLE 2 c.world.length ++ c.world) ++
        (encodeLE 4 c.ip.toNat ++ encodeLE 2 c.port.toNat)) := by
    simp [payload, Character.ops, AddOp.bytes]
  rw [hpayload]
  exact (reads_string h.1).bind ((reads_string h.2).bind (hip.bind (hport.done hlast)))

/-- The payload reads back as what was put into it. -/
theorem packet_reads (hshort : Short res) (hcount : res.characterList.length ≤ 255) :
    Reads packet (payload res.ops)
      (res.motdLine, UInt8.ofNat res.characterList.length, res.characterList) := by
  have hlength : (UInt8.ofNat res.characterList.length).toNat = res.characterList.length := by
    rw [UInt8.toNat_ofNat']
    omega
  have hrecords : Reads (many character (UInt8.ofNat res.characterList.length).toNat)
      (res.characterList.flatMap fun c => payload c.ops) res.characterList := by
    rw [hlength]
    exact reads_many fun c hc => character_reads (hshort.names c hc)
  have hpayload : payload res.ops = [0x14] ++ ((encodeLE 2 res.motdLine.length ++ res.motdLine) ++
      ([0x64] ++ ([UInt8.ofNat res.characterList.length] ++
        res.characterList.flatMap fun c => payload c.ops))) := by
    simp [payload, SucceedResult.ops, AddOp.bytes, SucceedByte, CharacterListByte,
      List.flatMap_assoc]
  rw [hpayload]
  exact (reads_expect 0x14).bind ((reads_string hshort.line).bind ((reads_expect 0x64).bind
    ((reads_byte _).bind (hrecords.done (reads_pure _)))))

theorem payload_injective (hshort : Short res) (hcount : res.characterList.length ≤ 255)
    (hshort' : Short other) (hcount' : other.characterList.length ≤ 255)
    (h : payload other.ops = payload res.ops) : other = res := by
  have hparse := (packet_reads hshort hcount).parseAll
  rw [← h, (packet_reads hshort' hcount').parseAll] at hparse
  obtain ⟨hline, -, hlist⟩ := by simpa only [Option.some.injEq, Prod.mk.injEq] using hparse
  have hsplit := congrArg splitLine hline
  rw [splitLine_motdLine, splitLine_motdLine, Prod.mk.injEq] at hsplit
  have hid := Int64.toInt.inj (decimal_injective hsplit.1)
  cases res
  cases other
  simp_all

end Format

section Answer

variable (cfg : Config OutMessage.Message) (uninitialised : Memory)

/-- Nothing was handed to the send loop, and both sides are closed. -/
def DroppedUnsent (s t : Protocol OutMessage.Message) : Prop :=
  SendFrame s.conn t.conn ∧ t.conn.readClosed = true ∧ t.conn.writeClosed = true

/-- The payload reads back as the result, and no other result has it. -/
structure Encodes (res : SucceedResult) (bytes : List UInt8) : Prop where
  parses : ∃ line count, parseAll packet bytes = some (line, count, res.characterList) ∧
    splitLine line = (decimal res.motdId.toInt, res.motd) ∧
      count.toNat = res.characterList.length
  injective : ∀ other, Short other → other.characterList.length ≤ 255 →
    payload other.ops = bytes → other = res

/-- What a client gets for a result: more characters than a byte counts end the connection, fewer
are sent. `sendCharacterList` only runs in a wrapped handler. -/
def Answers (s : Protocol OutMessage.Message) (res : SucceedResult) : Prop :=
  if 255 < res.characterList.length then
    DroppedUnsent s (after (wrapHandler cfg (sendCharacterList cfg uninitialised (some res))) s)
  else
    ∃ out t, sendCharacterList cfg uninitialised (some res) s = sendAndStop cfg out t ∧
      Encodes res (getBuffer out)

/-- Where the handler runs and its hook was called: a live connection whose peer address is
known. -/
structure HookCalled (s : Protocol OutMessage.Message) : Prop where
  attached : s.conn.attached = true
  alive : isAlive s.conn = true
  address : answers cfg s.conn = true

variable {cfg uninitialised} {s : Protocol OutMessage.Message} {res : SucceedResult}

def callOnce (s : Protocol OutMessage.Message) : Protocol OutMessage.Message :=
  { s with conn := called s.conn }

theorem viaConnection_run {M : Type} {c : State M} (h : c.attached = true) (x : ConnM M Unit) :
    viaConnection x c = x c := by
  rw [viaConnection, bind_ok (get_run c), if_pos h]

theorem callHook_returns (h : HookCalled cfg s) :
    callHook cfg (some res) s = .ok (some res) (callOnce s) := by
  have haddress : onConn (viaConnection (remoteEndpoint cfg)) s = .ok () (callOnce s) := by
    rw [onConn, viaConnection_run h.attached, remoteEndpoint, connectedCall_run, if_pos h.address]
    rfl
  rw [callHook, tryCatch_run, bind_ok haddress]
  rfl

theorem payload_short (hshort : Short res) (hcount : res.characterList.length ≤ 255) :
    (payload res.ops).length < 2 ^ 31 := by
  have hrecords : (res.characterList.flatMap fun c => payload c.ops).length ≤
      res.characterList.length * 131080 := by
    rw [List.length_flatMap]
    refine (List.sum_le_card_nsmul _ 131080 ?_).trans (by rw [List.length_map, smul_eq_mul])
    intro n hn
    obtain ⟨c, hc, rfl⟩ := List.mem_map.mp hn
    obtain ⟨hname, hworld⟩ := hshort.names c hc
    simp only [payload, Character.ops, AddOp.bytes, List.flatMap_cons, List.flatMap_nil,
      List.length_append, length_encodeLE, List.length_nil]
    omega
  have hline := hshort.line
  have hpayload : (payload res.ops).length = 1 + (2 + res.motdLine.length) + 1 + 1 +
      (res.characterList.flatMap fun c => payload c.ops).length := by
    simp [payload, SucceedResult.ops, AddOp.bytes, List.flatMap_assoc]
    omega
  omega

theorem sent (h : HookCalled cfg s) (hshort : Short res) (hcount : res.characterList.length ≤ 255) :
    ∃ out t, sendCharacterList cfg uninitialised (some res) s = sendAndStop cfg out t ∧
      Encodes res (getBuffer out) := by
  obtain ⟨out, hbuild, hholds⟩ := build_holds (standardOutMessage_holds uninitialised) res.ops
  rw [List.nil_append] at hholds
  have hlength := payload_short hshort hcount
  have hbuffer := hholds.getBuffer (by omega)
  refine ⟨out, callOnce s, ?_, ?_, ?_⟩
  · rw [sendCharacterList, bind_ok (callHook_returns h)]
    simp only [Nat.not_lt.mpr hcount, if_false, hbuild]
  · rw [hbuffer]
    refine ⟨_, _, (packet_reads hshort hcount).parseAll, splitLine_motdLine res, ?_⟩
    rw [UInt8.toNat_ofNat']
    omega
  · intro other hshort' hcount' hsame
    exact payload_injective hshort hcount hshort' hcount' (hsame.trans hbuffer)

/-- A dropping protocol logs before it stops. -/
theorem dropConnection_run (h : s.conn.attached = true) :
    dropConnection cfg s =
      if answers cfg s.conn = true then onConn (Connection.stop cfg) (callOnce s)
      else .error .exception (callOnce s) := by
  have hlog : viaConnection (droppingLogInfo cfg) s.conn =
      if answers cfg s.conn = true then .ok () (called s.conn)
      else .error .exception (called s.conn) := by
    rw [viaConnection_run h]
    exact connectedCall_run cfg s.conn
  rw [dropConnection, onConn]
  split at hlog
  · next hanswers =>
    have hattached : (called s.conn).attached = true := h
    rw [bind_ok hlog, viaConnection_run hattached, if_pos hanswers]
    rfl
  · next hfails =>
    rw [bind_error hlog, if_neg hfails]
    rfl

theorem dropConnection_closes (h : s.conn.attached = true) (hanswers : answers cfg s.conn = true) :
    (after (dropConnection cfg) s).conn.readClosed = true ∧
      (after (dropConnection cfg) s).conn.writeClosed = true := by
  have hafter : after (dropConnection cfg) s =
      after (onConn (Connection.stop cfg)) (callOnce s) := by
    rw [after, dropConnection_run h, if_pos hanswers, ← after]
  rw [hafter, onConn_after]
  exact stop_flags cfg _

def QuietConn (s t : Protocol OutMessage.Message) : Prop := Quiet false s.conn t.conn

instance : IsPreorder (Protocol OutMessage.Message) QuietConn where
  refl s := refl s.conn
  trans _ _ _ := Quiet.trans

theorem dropConnection_quiet (cfg : Config OutMessage.Message) :
    Evolves QuietConn (dropConnection cfg) := by
  intro s
  rw [dropConnection, QuietConn, onConn_after]
  have hlog : Evolves (Quiet false) (viaConnection (droppingLogInfo cfg)) :=
    viaConnection_evolves (fun _ _ => id)
      (Evolves.mono (fun _ _ => Silent.quiet) (droppingLogInfo_silent cfg))
  have hstop : Evolves (Quiet false) (viaConnection (Connection.stop cfg)) :=
    viaConnection_evolves (fun _ _ => id) (stop_quiet cfg)
  exact (hlog.bind fun _ => hstop) s.conn

theorem wrapHandler_alive (hattached : s.conn.attached = true) (halive : isAlive s.conn = true)
    (handler : LoginM OutMessage.Message Unit) :
    wrapHandler cfg handler s = tryCatch handler (wrappedCatch cfg) s := by
  rw [wrapHandler, bind_ok (get_run s), if_pos hattached, if_pos halive]

/-- Whatever the handler threw, the wrapper adds at most another attempt to drop the connection. -/
theorem wrapHandler_quiet (hattached : s.conn.attached = true) (halive : isAlive s.conn = true)
    (handler : LoginM OutMessage.Message Unit) :
    QuietConn (after handler s) (after (wrapHandler cfg handler) s) := by
  unfold after
  rw [wrapHandler_alive hattached halive, tryCatch_run]
  cases handler s with
  | ok a t => exact refl t
  | error e t =>
    cases e with
    | packetException | exception => exact dropConnection_quiet cfg t
    | crash => exact refl t

theorem answers_connected (hopen : s.conn.peer.isOpen = true)
    (hconnected : s.conn.peer.connected = true) :
    answers cfg s.conn = cfg.sys s.conn.sysCalls := by
  rw [answers, hopen, hconnected]
  rfl

section TooMany

variable (h : HookCalled cfg s) (hmany : 255 < res.characterList.length)
include h

theorem answers_again : answers cfg (callOnce s).conn = cfg.sys (s.conn.sysCalls + 1) ∧
    answers cfg (callOnce (callOnce s)).conn = cfg.sys (s.conn.sysCalls + 2) := by
  have haddress := h.address
  simp only [answers, Bool.and_eq_true] at haddress
  obtain ⟨⟨hopen, hconnected⟩, -⟩ := haddress
  constructor
  · exact answers_connected hopen hconnected
  · exact answers_connected hopen hconnected

include hmany

theorem sendCharacterList_many :
    sendCharacterList cfg uninitialised (some res) s = dropConnection cfg (callOnce s) := by
  rw [sendCharacterList, bind_ok (callHook_returns h)]
  exact congrFun (if_pos hmany) (callOnce s)

theorem many_quiet :
    QuietConn s (after (wrapHandler cfg (sendCharacterList cfg uninitialised (some res))) s) := by
  have hcalled : QuietConn s (callOnce s) := Quiet.of_eq rfl rfl
  have hdropped : QuietConn s (after (sendCharacterList cfg uninitialised (some res)) s) := by
    rw [after, sendCharacterList_many h hmany]
    exact hcalled.trans (dropConnection_quiet cfg (callOnce s))
  exact hdropped.trans (wrapHandler_quiet h.attached h.alive _)

theorem first_attempt (hlog : cfg.sys (s.conn.sysCalls + 1) = true) :
    DroppedUnsent s
      (after (wrapHandler cfg (sendCharacterList cfg uninitialised (some res))) s) := by
  have hattached : (callOnce s).conn.attached = true := h.attached
  obtain ⟨hread, hwrite⟩ := dropConnection_closes hattached ((answers_again h).1.trans hlog)
  have hcatch : QuietConn (after (sendCharacterList cfg uninitialised (some res)) s)
      (after (wrapHandler cfg (sendCharacterList cfg uninitialised (some res))) s) :=
    wrapHandler_quiet h.attached h.alive _
  have hstopped : after (sendCharacterList cfg uninitialised (some res)) s =
      after (dropConnection cfg) (callOnce s) := by
    rw [after, sendCharacterList_many h hmany, ← after]
  rw [hstopped] at hcatch
  exact ⟨(many_quiet h hmany).2, hcatch.1.readClosed hread, hcatch.1.writeClosed hwrite⟩

theorem second_attempt (hlog : cfg.sys (s.conn.sysCalls + 1) ≠ true) :
    after (wrapHandler cfg (sendCharacterList cfg uninitialised (some res))) s =
      after (dropConnection cfg) (callOnce (callOnce s)) := by
  have hattached : (callOnce s).conn.attached = true := h.attached
  have hthrows : sendCharacterList cfg uninitialised (some res) s =
      .error .exception (callOnce (callOnce s)) := by
    rw [sendCharacterList_many h hmany, dropConnection_run hattached, (answers_again h).1,
      if_neg hlog]
  rw [after, wrapHandler_alive h.attached h.alive, tryCatch_run, hthrows]
  rfl

/-- For a list that a byte cannot count: the connection is dropped unless both log lines fail, that
of `sendCharacterList` and that of the wrapper which catches its exception. -/
theorem dropped_iff :
    DroppedUnsent s (after (wrapHandler cfg (sendCharacterList cfg uninitialised (some res))) s) ↔
      cfg.sys (s.conn.sysCalls + 1) = true ∨ cfg.sys (s.conn.sysCalls + 2) = true := by
  by_cases hlog : cfg.sys (s.conn.sysCalls + 1) = true
  · exact iff_of_true (first_attempt h hmany hlog) (Or.inl hlog)
  have hquiet : QuietConn s
      (after (wrapHandler cfg (sendCharacterList cfg uninitialised (some res))) s) :=
    many_quiet h hmany
  have hattached : (callOnce (callOnce s)).conn.attached = true := h.attached
  rw [second_attempt h hmany hlog] at hquiet ⊢
  by_cases hagain : cfg.sys (s.conn.sysCalls + 2) = true
  · obtain ⟨hread, hwrite⟩ := dropConnection_closes hattached ((answers_again h).2.trans hagain)
    exact iff_of_true ⟨hquiet.2, hread, hwrite⟩ (Or.inr hagain)
  · refine iff_of_false ?_ (not_or.mpr ⟨hlog, hagain⟩)
    rintro ⟨-, hread, -⟩
    have hfails : dropConnection cfg (callOnce (callOnce s)) = _ := dropConnection_run hattached
    rw [(answers_again h).2, if_neg hagain] at hfails
    rw [after_error hfails] at hread
    have halive := h.alive
    have hclosed : s.conn.readClosed = true := hread
    simp [isAlive, isStopped, hclosed] at halive

end TooMany

def oneCharacter : SucceedResult :=
  ⟨-7, [72, 105, 10, 33], [⟨[65], [66, 67], 0x0100007F, 7171⟩]⟩

theorem loginState_called {sys : ℕ → Bool} (h : sys 0 = true) :
    HookCalled (standardConfig sys true false) loginState :=
  ⟨rfl, rfl, by rw [answers]; exact h⟩

/-- The socket knows its peer for the hook, and not any more for the log. -/
def disconnecting (n : ℕ) : Bool := n == 0

end Answer

end CharacterList
