import Rnet.Lib.X25519
import Rnet.Lib.System
import Rnet.Lib.Wire

/-!
# Secured connections: `security/src/conn.rs`, `transport.rs` and `deffi_hellman/mod.rs`

Both ends of a connection select the security protocols, exchange public keys and keep a
cipher with the shared secret as its key. `SecureConn` has that cipher next to the stream, and
hands messages to the stream and back without using it: the lines that seal and open frames
are commented out.

> `handshake_agrees`: both ends come out of a handshake with each other with the same key.

> `secure_iff_silent`: a run keeps what an encrypted channel promises exactly if nothing is written
> and nothing is read.

The cipher, the key agreement and the format of the names come from other packages and are
parameters. Nobody touches the frames before both ends have their keys.
-/

namespace Rnet.Security

open Rnet.Lib
open Rnet.Lib.System (runUnder_of_exec)

/-! ## The handshake -/

def MULTISELECT_CONNECT : String := "mutilselect/0.0.1"

def DEFFIE_HEINMAN : String := "rnet/deffi_heinman/0.0.1"

def NONCE_LEN : Nat := 12

inductive Side
  | initiator
  | responder
  deriving DecidableEq, Repr

def Side.other : Side → Side
  | initiator => responder
  | responder => initiator

theorem Side.other_other (side : Side) : side.other.other = side := by
  cases side with
  | initiator => rfl
  | responder => rfl

theorem Side.other_ne (side : Side) : side.other ≠ side := by
  cases side with
  | initiator => decide
  | responder => decide

/-- Whether the end has dialed. -/
def Side.isInitiator : Side → Bool
  | initiator => true
  | responder => false

/-- How far an end has come. -/
inductive Phase
  /-- `try_select` for the protocols that are left, then `DHTransport::handshake`; `sent` is behind
  the first `send_bytes` of the initiator -/
  | handshake (protocols : List String) (sent : Bool)
  /-- a `SecureConn` with the key of its cipher -/
  | secured (cipher : Bytes 32)
  | failed
  deriving DecidableEq

/-- The two ends of a connection and the stream below them. -/
structure SecureLink where
  /-- the secret of `EphemeralSecret::random_from_rng` -/
  secret : Side → Bytes 32
  phase : Side → Phase := fun _ => .handshake [MULTISELECT_CONNECT, DEFFIE_HEINMAN] false
  /-- the messages on their way to each end -/
  incoming : Side → List (List UInt8) := fun _ => []
  /-- what `SecureConn::write` of each end has handed to the stream -/
  handed : Side → List (List UInt8) := fun _ => []

namespace SecureLink

/-- `send_bytes`, at end `e`. -/
def sendBytes (s : SecureLink) (e : Side) (msg : List UInt8) : SecureLink :=
  { s with incoming := Function.update s.incoming e.other (s.incoming e.other ++ [msg]) }

def enter (s : SecureLink) (e : Side) (phase : Phase) : SecureLink :=
  { s with phase := Function.update s.phase e phase }

/-- End `e` has received a message and goes on. -/
def received (s : SecureLink) (e : Side) (rest : List (List UInt8)) (phase : Phase) : SecureLink :=
  { s with incoming := Function.update s.incoming e rest }.enter e phase

section Handshake

variable (B : Bincode String FitsText) (K : KeyAgreement)

/-- `try_select`, from one `await` to the next. -/
def trySelect (s : SecureLink) (protocol : String) (protocols : List String) :
    Side → Bool → Option SecureLink
  | .initiator, false =>
    some ((s.enter .initiator (.handshake (protocol :: protocols) true)).sendBytes .initiator
      (B.serialize protocol))
  | .initiator, true =>
    match s.incoming .initiator with
    | [] => none
    | response :: rest =>
      if B.deserialize response = some protocol then
        some (s.received .initiator rest (.handshake protocols false))
      else some (s.received .initiator rest .failed)
  | .responder, _ =>
    match s.incoming .responder with
    | [] => none
    | msg_bytes :: rest =>
      if B.deserialize msg_bytes = some protocol then
        some ((s.received .responder rest (.handshake protocols false)).sendBytes .responder
          (B.serialize protocol))
      else some (s.received .responder rest .failed)

/-- `DHTransport::handshake`, from one `await` to the next. -/
def exchangeKeys (s : SecureLink) : Side → Bool → Option SecureLink
  | .initiator, false =>
    some ((s.enter .initiator (.handshake [] true)).sendBytes .initiator
      (K.publicKey (s.secret .initiator)).1)
  | .initiator, true =>
    match s.incoming .initiator with
    | [] => none
    | response :: rest =>
      if h : response.length = 32 then
        some (s.received .initiator rest
          (.secured (K.diffieHellman (s.secret .initiator) ⟨response, h⟩)))
      else some (s.received .initiator rest .failed)
  | .responder, _ =>
    match s.incoming .responder with
    | [] => none
    | remote_pubkey_bytes :: rest =>
      if h : remote_pubkey_bytes.length = 32 then
        some ((s.received .responder rest
          (.secured (K.diffieHellman (s.secret .responder) ⟨remote_pubkey_bytes, h⟩))).sendBytes
            .responder (K.publicKey (s.secret .responder)).1)
      else some (s.received .responder rest .failed)

/-- `SecureTransport::handshake`, from one `await` to the next. -/
def handshake (s : SecureLink) (e : Side) : Option SecureLink :=
  match s.phase e with
  | .handshake (protocol :: protocols) sent => s.trySelect B protocol protocols e sent
  | .handshake [] sent => s.exchangeKeys K e sent
  | .secured _ | .failed => none

end Handshake

end SecureLink

/-! ## The connection -/

/-- `ISecureCipher::iencrypt`, with the nonce that is generated: the ciphertext and the nonce. -/
def iencrypt (A : Aead (Bytes 32)) (cipher : Bytes 32) (nonce plaintext : List UInt8) :
    Option (List UInt8 × List UInt8) := (A.encrypt cipher nonce plaintext).map (·, nonce)

/-- `ISecureCipher::idecrypt`. -/
def idecrypt (A : Aead (Bytes 32)) (cipher : Bytes 32) (nonce_bytes ciphertext : List UInt8) :
    Option (List UInt8) :=
  if nonce_bytes.length = NONCE_LEN then A.decrypt cipher nonce_bytes ciphertext else none

namespace SecureConn

/-- `SecureConn::write`: what it hands to the stream. -/
def write (_cipher : Bytes 32) (msg : List UInt8) : List UInt8 := msg

/-- `SecureConn::read`: what it returns for the bytes of the stream. -/
def read (_cipher : Bytes 32) (bytes : List UInt8) : Option (List UInt8) := some bytes

end SecureConn

/-- One step of an end, or of whoever controls the stream below. -/
inductive SecureAct
  | handshake (e : Side)
  | write (e : Side) (msg : List UInt8)
  | read (e : Side)
  /-- the stream fails to receive at end `e` -/
  | recvFails (e : Side)
  /-- the messages on their way to end `e` are modified, replaced, dropped, or joined by others -/
  | tamper (e : Side) (msgs : List (List UInt8))
  deriving DecidableEq

namespace SecureLink

/-- The cipher of end `e`, once both ends have one. -/
def cipher (s : SecureLink) (e : Side) : Option (Bytes 32) :=
  match s.phase e, s.phase e.other with
  | .secured k, .secured _ => some k
  | _, _ => none

def step (B : Bincode String FitsText) (K : KeyAgreement) (s : SecureLink) :
    SecureAct → Option SecureLink
  | .handshake e => s.handshake B K e
  | .write e msg =>
    match s.cipher e with
    | none => none
    | some k =>
      let payload := SecureConn.write k msg
      some ({ s with handed := Function.update s.handed e (s.handed e ++ [payload]) }.sendBytes e
        payload)
  | .read e =>
    match s.cipher e, s.incoming e with
    | some _, _ :: rest => some { s with incoming := Function.update s.incoming e rest }
    | _, _ => none
  | .recvFails e => (s.cipher e).map fun _ => s
  | .tamper e msgs =>
    match s.cipher e with
    | none => none
    | some _ => some { s with incoming := Function.update s.incoming e msgs }

end SecureLink

/-- Two ends that make a handshake with each other. -/
def secureLink (B : Bincode String FitsText) (K : KeyAgreement) : System SecureLink SecureAct where
  init := fun s => ∃ secret, s = { secret }
  step := SecureLink.step B K

/-! ## What is promised -/

/-- The step keeps what an encrypted channel promises:
- what `write` hands to the stream is a nonce of 12 bytes and what `iencrypt` makes of the message;
- what `read` returns comes from bytes of that form that `idecrypt` accepts, and that the other end
  has handed to the stream. -/
def Sound (A : Aead (Bytes 32)) (s : SecureLink) : SecureAct → Prop
  | .write e msg => ∀ k, s.cipher e = some k → ∃ nonce ciphertext, nonce.length = NONCE_LEN ∧
      iencrypt A k nonce msg = some (ciphertext, nonce) ∧
      SecureConn.write k msg = nonce ++ ciphertext
  | .read e => ∀ k bytes rest m, s.cipher e = some k → s.incoming e = bytes :: rest →
      SecureConn.read k bytes = some m →
      (∃ nonce_bytes ciphertext, nonce_bytes.length = NONCE_LEN ∧
        idecrypt A k nonce_bytes ciphertext = some m ∧ bytes = nonce_bytes ++ ciphertext) ∧
      bytes ∈ s.handed e.other
  | _ => True

/-- The step writes nothing and reads nothing. -/
def Silent (_ : SecureLink) : SecureAct → Prop
  | .write _ _ | .read _ => False
  | _ => True

/-! ## Both ends have the same key -/

section Agreement

variable {B : Bincode String FitsText} {K : KeyAgreement}

/-- How far both ends have come together: the initiator's phase, the responder's, and the messages
on their way to each. -/
inductive InStep (B : Bincode String FitsText) (K : KeyAgreement) (a b : Bytes 32) :
    Phase → Phase → List (List UInt8) → List (List UInt8) → Prop
  | start (ps : List String) (hps : ∀ p ∈ ps, FitsText p) :
      InStep B K a b (.handshake ps false) (.handshake ps false) [] []
  | proposed (p : String) (ps : List String) (hps : ∀ q ∈ p :: ps, FitsText q) :
      InStep B K a b (.handshake (p :: ps) true) (.handshake (p :: ps) false) [] [B.serialize p]
  | selected (p : String) (ps : List String) (hps : ∀ q ∈ p :: ps, FitsText q) :
      InStep B K a b (.handshake (p :: ps) true) (.handshake ps false) [B.serialize p] []
  | keySent : InStep B K a b (.handshake [] true) (.handshake [] false) [] [(K.publicKey a).1]
  | keyAnswered : InStep B K a b (.handshake [] true)
      (.secured (K.diffieHellman b (K.publicKey a))) [(K.publicKey b).1] []
  | done (toInitiator toResponder : List (List UInt8)) :
      InStep B K a b (.secured (K.diffieHellman a (K.publicKey b)))
        (.secured (K.diffieHellman b (K.publicKey a))) toInitiator toResponder

/-- The two ends are in step. -/
def HandshakeInv (B : Bincode String FitsText) (K : KeyAgreement) (s : SecureLink) : Prop :=
  InStep B K (s.secret .initiator) (s.secret .responder) (s.phase .initiator)
    (s.phase .responder) (s.incoming .initiator) (s.incoming .responder)

theorem HandshakeInv.of_eq {s : SecureLink} {pi pr : Phase} {ii ir : List (List UInt8)}
    (h : InStep B K (s.secret .initiator) (s.secret .responder) pi pr ii ir)
    (hpi : s.phase .initiator = pi) (hpr : s.phase .responder = pr)
    (hii : s.incoming .initiator = ii) (hir : s.incoming .responder = ir) : HandshakeInv B K s := by
  rw [HandshakeInv, hpi, hpr, hii, hir]
  exact h

theorem HandshakeInv.init {s : SecureLink} (h : (secureLink B K).init s) : HandshakeInv B K s := by
  obtain ⟨secret, rfl⟩ := h
  refine .start [MULTISELECT_CONNECT, DEFFIE_HEINMAN] fun p hp => ?_
  rcases List.mem_cons.mp hp with rfl | hp
  · decide +kernel
  · rw [List.mem_singleton.mp hp]
    decide +kernel

/-- **A step of the handshake** keeps the ends in step. -/
theorem HandshakeInv.handshake {s s' : SecureLink} (h : HandshakeInv B K s) {e : Side}
    (hs : s.handshake B K e = some s') : HandshakeInv B K s' := by
  rw [HandshakeInv] at h
  rw [SecureLink.handshake] at hs
  generalize hpi : s.phase .initiator = pi at h
  generalize hpr : s.phase .responder = pr at h
  generalize hii : s.incoming .initiator = ii at h
  generalize hir : s.incoming .responder = ir at h
  cases h with
  | start ps hps =>
    cases e with
    | initiator =>
      rw [hpi] at hs
      cases ps with
      | nil =>
        obtain rfl := Option.some.inj hs
        refine .of_eq .keySent ?_ hpr ?_ ?_
        · simp [SecureLink.sendBytes, SecureLink.enter]
        · simp [SecureLink.sendBytes, SecureLink.enter, Side.other, hii]
        · simp [SecureLink.sendBytes, SecureLink.enter, Side.other, hir]
      | cons p ps =>
        obtain rfl := Option.some.inj hs
        refine .of_eq (.proposed p ps hps) ?_ hpr ?_ ?_
        · simp [SecureLink.sendBytes, SecureLink.enter]
        · simp [SecureLink.sendBytes, SecureLink.enter, Side.other, hii]
        · simp [SecureLink.sendBytes, SecureLink.enter, Side.other, hir]
    | responder =>
      rw [hpr] at hs
      cases ps with
      | nil => simp [SecureLink.exchangeKeys, hir] at hs
      | cons p ps => simp [SecureLink.trySelect, hir] at hs
  | proposed p ps hps =>
    cases e with
    | initiator => simp [hpi, SecureLink.trySelect, hii] at hs
    | responder =>
      have hp := B.deserialize_serialize (hps p (List.mem_cons_self ..))
      simp only [hpr, SecureLink.trySelect, hir, hp, if_true, Option.some.injEq] at hs
      subst hs
      refine .of_eq (.selected p ps hps) hpi ?_ ?_ ?_
      · simp [SecureLink.sendBytes, SecureLink.received, SecureLink.enter]
      · simp [SecureLink.sendBytes, SecureLink.received, SecureLink.enter, Side.other, hii]
      · simp [SecureLink.sendBytes, SecureLink.received, SecureLink.enter, Side.other]
  | selected p ps hps =>
    cases e with
    | initiator =>
      have hp := B.deserialize_serialize (hps p (List.mem_cons_self ..))
      simp only [hpi, SecureLink.trySelect, hii, hp, if_true, Option.some.injEq] at hs
      subst hs
      refine .of_eq (.start ps fun q hq => hps q (List.mem_cons_of_mem p hq)) ?_ hpr ?_ hir
      · simp [SecureLink.received, SecureLink.enter]
      · simp [SecureLink.received, SecureLink.enter]
    | responder =>
      rw [hpr] at hs
      cases ps with
      | nil => simp [SecureLink.exchangeKeys, hir] at hs
      | cons p ps => simp [SecureLink.trySelect, hir] at hs
  | keySent =>
    cases e with
    | initiator => simp [hpi, SecureLink.exchangeKeys, hii] at hs
    | responder =>
      simp only [hpr, SecureLink.exchangeKeys, hir, dif_pos (K.publicKey _).2,
        Option.some.injEq] at hs
      subst hs
      refine .of_eq .keyAnswered hpi ?_ ?_ ?_
      · simp [SecureLink.sendBytes, SecureLink.received, SecureLink.enter]
      · simp [SecureLink.sendBytes, SecureLink.received, SecureLink.enter, Side.other, hii]
      · simp [SecureLink.sendBytes, SecureLink.received, SecureLink.enter, Side.other]
  | keyAnswered =>
    cases e with
    | initiator =>
      simp only [hpi, SecureLink.exchangeKeys, hii, dif_pos (K.publicKey _).2,
        Option.some.injEq] at hs
      subst hs
      refine .of_eq (.done [] []) ?_ hpr ?_ hir
      · simp [SecureLink.received, SecureLink.enter]
      · simp [SecureLink.received, SecureLink.enter]
    | responder => simp [hpr] at hs
  | done toInitiator toResponder =>
    cases e with
    | initiator => simp [hpi] at hs
    | responder => simp [hpr] at hs

/-- Once both ends have their keys, the phases stay. -/
theorem HandshakeInv.of_cipher {s s' : SecureLink} (h : HandshakeInv B K s) {e : Side}
    {k : Bytes 32} (hk : s.cipher e = some k) (hsecret : s'.secret = s.secret)
    (hphase : s'.phase = s.phase) : HandshakeInv B K s' := by
  have hdone : ∃ k₁ k₂, s.phase .initiator = .secured k₁ ∧ s.phase .responder = .secured k₂ := by
    rw [SecureLink.cipher] at hk
    split at hk
    · rename_i k₁ k₂ h₁ h₂
      cases e with
      | initiator => exact ⟨k₁, k₂, h₁, h₂⟩
      | responder => exact ⟨k₂, k₁, h₂, h₁⟩
    · simp at hk
  obtain ⟨k₁, k₂, h₁, h₂⟩ := hdone
  rw [HandshakeInv, h₁, h₂] at h
  rw [HandshakeInv, hsecret, hphase, h₁, h₂]
  cases h with
  | done => exact .done _ _

/-- **One step** keeps the ends in step. -/
theorem HandshakeInv.step {s s' : SecureLink} (h : HandshakeInv B K s) {a : SecureAct}
    (hs : s.step B K a = some s') : HandshakeInv B K s' := by
  cases a with
  | handshake e => exact h.handshake hs
  | write e msg =>
    simp only [SecureLink.step] at hs
    split at hs
    · simp at hs
    · rename_i k hk
      obtain rfl := Option.some.inj hs
      exact h.of_cipher hk rfl rfl
  | read e =>
    simp only [SecureLink.step] at hs
    split at hs
    · rename_i k bytes rest hk hin
      obtain rfl := Option.some.inj hs
      exact h.of_cipher hk rfl rfl
    · simp at hs
  | recvFails e =>
    obtain ⟨k, hk, rfl⟩ := Option.map_eq_some_iff.mp hs
    exact h
  | tamper e msgs =>
    simp only [SecureLink.step] at hs
    split at hs
    · simp at hs
    · rename_i k hk
      obtain rfl := Option.some.inj hs
      exact h.of_cipher hk rfl rfl

/-- **The agreed key.** Two ends that make a handshake with each other never fail it, and once both
have a cipher they have the same one. -/
theorem handshake_agrees (hK : K.Agrees) {as : List SecureAct} {s : SecureLink}
    (h : (secureLink B K).Run as s) :
    (∀ e, s.phase e ≠ .failed) ∧
      ∀ k, s.cipher .initiator = some k → s.cipher .responder = some k := by
  have hinv : HandshakeInv B K s :=
    h.invariant (HandshakeInv B K) (fun _ => HandshakeInv.init) fun _ _ _ hi _ hs => hi.step hs
  rw [HandshakeInv] at hinv
  generalize hpi : s.phase .initiator = pi at hinv
  generalize hpr : s.phase .responder = pr at hinv
  generalize s.incoming .initiator = ii at hinv
  generalize s.incoming .responder = ir at hinv
  constructor
  · intro e he
    cases e with
    | initiator =>
      rw [hpi] at he
      subst he
      cases hinv
    | responder =>
      rw [hpr] at he
      subst he
      cases hinv
  · intro k hk
    rw [SecureLink.cipher, Side.other, hpi, hpr] at hk
    rw [SecureLink.cipher, Side.other, hpi, hpr]
    cases hinv with
    | done => simpa [hK (s.secret .initiator)] using hk
    | _ => simp at hk

end Agreement

/-! ## Every run -/

section Secure

variable {A : Aead (Bytes 32)} {B : Bincode String FitsText} {K : KeyAgreement}

/-- What a write does: the message joins those on their way. -/
theorem write_spec {s : SecureLink} {e : Side} {k : Bytes 32} (hk : s.cipher e = some k)
    (msg : List UInt8) : ∃ s', s.step B K (.write e msg) = some s' ∧
      s'.incoming e.other = s.incoming e.other ++ [msg] := by
  refine ⟨_, by rw [SecureLink.step, hk], ?_⟩
  exact Function.update_self ..

/-- `write` seals no message. -/
theorem not_sound_write (hA : A.Ideal 16) {s : SecureLink} {e : Side} {k : Bytes 32}
    (hk : s.cipher e = some k) (msg : List UInt8) : ¬ Sound A s (.write e msg) := by
  intro h
  obtain ⟨nonce, ciphertext, hlen, henc, heq⟩ := h k hk
  obtain ⟨c, hc, hpair⟩ := Option.map_eq_some_iff.mp henc
  obtain ⟨rfl, -⟩ := Prod.mk.inj hpair
  exact hA.not_sealed_self (by decide) NONCE_LEN k msg ⟨nonce, c, hlen, hc, heq⟩

/-- `read` opens no message. -/
theorem not_sound_read (hA : A.Ideal 16) {s : SecureLink} {e : Side} {k : Bytes 32}
    {bytes : List UInt8} {rest : List (List UInt8)} (hk : s.cipher e = some k)
    (hin : s.incoming e = bytes :: rest) : ¬ Sound A s (.read e) := by
  intro h
  obtain ⟨⟨nonce, c, hlen, hdec, heq⟩, -⟩ := h k bytes rest bytes hk hin rfl
  rw [idecrypt, if_pos hlen] at hdec
  exact hA.not_sealed_self (by decide) NONCE_LEN k bytes
    (hA.opens_iff_sealed.mp ⟨nonce, c, hlen, hdec, heq⟩)

theorem sound_iff_silent (hA : A.Ideal 16) {s s' : SecureLink} {a : SecureAct}
    (hs : s.step B K a = some s') : Sound A s a ↔ Silent s a := by
  cases a with
  | handshake | recvFails | tamper => exact Iff.rfl
  | write e msg =>
    simp only [SecureLink.step] at hs
    split at hs
    · simp at hs
    · rename_i k hk
      exact iff_false_intro (not_sound_write hA hk msg)
  | read e =>
    simp only [SecureLink.step] at hs
    split at hs
    · rename_i k bytes rest hk hin
      exact iff_false_intro (not_sound_read hA hk hin)
    · simp at hs

/-- **The secured channel.** For every sequence of messages and whatever is done to the frames on
their way, the channel keeps its promises exactly as long as nothing is written and nothing is
read. -/
theorem secure_iff_silent (hA : A.Ideal 16) (secret : Side → Bytes 32) (as : List SecureAct) :
    (secureLink B K).Guarded (Sound A) { secret } as ↔
      (secureLink B K).Guarded Silent { secret } as :=
  System.guarded_congr (fun s a _ hs => sound_iff_silent (B := B) (K := K) (s := s) (a := a) hA hs)
    as { secret }

end Secure

/-! ## A message -/

/-- Two secrets of repeated bytes. -/
def sampleSecret : Side → Bytes 32
  | .initiator => ⟨List.replicate 32 1, List.length_replicate⟩
  | .responder => ⟨List.replicate 32 2, List.length_replicate⟩

/-- The handshake, one end after the other. -/
def shakeHands : List SecureAct :=
  (List.replicate 3 [.handshake .initiator, .handshake .responder, .handshake .initiator]).flatten

/-- Nothing but a handshake. -/
theorem secure_shakeHands :
    (secureLink textBincode x25519).Guarded (Sound chaChaPoly) { secret := sampleSecret }
        shakeHands ↔
      (secureLink textBincode x25519).Guarded Silent { secret := sampleSecret } shakeHands :=
  secure_iff_silent chaChaPoly_ideal sampleSecret shakeHands

theorem shakeHands_enabled :
    ((secureLink textBincode x25519).exec (fun _ _ => True) { secret := sampleSecret }
      shakeHands).any (fun s => (s.cipher .initiator).isSome) = true := by decide +kernel

/-- **A first message** goes to the stream as it is. -/
theorem message_in_plaintext : ∃ s s', (secureLink textBincode x25519).Run shakeHands s ∧
    s.step textBincode x25519 (.write .initiator [104, 105]) = some s' ∧
    s'.incoming .responder = s.incoming .responder ++ [[104, 105]] ∧
    ¬ Sound chaChaPoly s (.write .initiator [104, 105]) := by
  obtain ⟨s, hs, hk⟩ := (Option.any_eq_true ..).mp shakeHands_enabled
  obtain ⟨k, hk⟩ := Option.isSome_iff_exists.mp hk
  obtain ⟨s', hs', hin⟩ := write_spec hk [104, 105]
  exact ⟨s, s', runUnder_of_exec ⟨sampleSecret, rfl⟩ hs, hs', hin,
    not_sound_write chaChaPoly_ideal hk [104, 105]⟩

end Rnet.Security
