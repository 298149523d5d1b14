/-
# TradeBroker.Domain — the exceptions, the 100-byte record and the endpoint results.

`broker/errors.py`, `broker/pokemon.py` and `broker/endpoints.py`.  An exception is a class and a
text: which `except` clause sees it is decided by the class alone (`isException`, `isOSError`), and
what reaches the journal is the class name and the text.  Code outside the repository (a driver, a
fault hook) raises classes of its own, `foreign`, and these may also be `BaseException`s that no
`except Exception` catches.

`Pokemon100` carries its length, so a record of another size cannot be built; `ofBytes` is the
constructor that refuses one.

Three predicates on exceptions do the work of the class hierarchy.  `isException` is everything but the
`BaseException`s, `isOSError` is what `_atomic_bytes` wraps, `isRecoveryRequired` is what `main` reports
with an exit status of its own.  A foreign class chooses its place among these, so a theorem about every
exception that a driver may raise is one about every choice.

The endpoints are seen through their results only: what was offered, what was received, whether the commit
was confirmed, and for the GBA the slot and whether the link was closed.  What they do to get there is the
subject of `Gba` and `Firmware`; here a result is data, and the coordinator checks it as such.
-/
import TradeBroker.Lib.Python
import TradeBroker.Lib.Digest

namespace TradeBroker

open Lib

/-! ## §1 — exceptions (`errors.py`). -/

/-- The exception classes that can be in flight: those of `errors.py`, those of the standard library that the
modelled calls raise, and the classes of code outside the repository. -/
inductive ExcType where
  | invalidPokemon
  | mailNotSupported
  | journalError
  | invalidTransition
  | recoveryRequired
  | endpointError
  | protocolError
  | commitNotConfirmed
  | placeholderMismatch
  | osError
  | fileNotFoundError
  | unicodeEncodeError
  | unicodeDecodeError
  | attributeError
  /-- A class of a driver, a hook or the interpreter; `isException` is false for a
  `BaseException` such as `KeyboardInterrupt`. -/
  | foreign (name : PyStr) (isException : Bool)
  deriving DecidableEq

/-- `type(exc).__name__`, which is what `last_error` and the log print of a class. -/
def ExcType.name : ExcType → PyStr
  | .invalidPokemon => "InvalidPokemon"
  | .mailNotSupported => "MailNotSupported"
  | .journalError => "JournalError"
  | .invalidTransition => "InvalidTransition"
  | .recoveryRequired => "RecoveryRequired"
  | .endpointError => "EndpointError"
  | .protocolError => "ProtocolError"
  | .commitNotConfirmed => "CommitNotConfirmed"
  | .placeholderMismatch => "PlaceholderMismatch"
  | .osError => "OSError"
  | .fileNotFoundError => "FileNotFoundError"
  | .unicodeEncodeError => "UnicodeEncodeError"
  | .unicodeDecodeError => "UnicodeDecodeError"
  | .attributeError => "AttributeError"
  | .foreign name _ => name

/-- An exception in flight: its class and `str(exc)`.  Its cause and its traceback are not looked at by any
code. -/
structure Exc where
  type : ExcType
  text : PyStr
  deriving DecidableEq

namespace Exc

/-- `except Exception` catches it: a foreign `BaseException`, such as a `KeyboardInterrupt`, goes past. -/
def isException (e : Exc) : Bool :=
  match e.type with
  | .foreign _ b => b
  | _ => true

/-- `except OSError` catches it. -/
def isOSError (e : Exc) : Bool :=
  match e.type with
  | .osError => true
  | .fileNotFoundError => true
  | _ => false

/-- `except RecoveryRequired` catches it: the class itself and its one subclass. -/
def isRecoveryRequired (e : Exc) : Bool :=
  match e.type with
  | .recoveryRequired => true
  | .placeholderMismatch => true
  | _ => false

/-- An `Exception` that is no `RecoveryRequired`: `main` reports it as an error, or not at all.  What a
failing file-system call makes of itself on its way up is of this kind, and so is every refused
trade result. -/
structure Ordinary (e : Exc) : Prop where
  isException : e.isException = true
  unreported : e.isRecoveryRequired = false

theorem ordinary_of_isOSError {e : Exc} (h : e.isOSError = true) : e.Ordinary := by
  obtain ⟨type, text⟩ := e
  cases type <;> first | exact ⟨rfl, rfl⟩ | simp [isOSError] at h

/-- `f"{type(exc).__name__}: {exc}"`, the text that the journal keeps as `last_error`. -/
def describe (e : Exc) : PyStr := e.type.name ++ ": " ++ e.text

/-- Class name and message both survive `.encode("utf-8")`, so the journal can hold the description. -/
def encodable (e : Exc) : Bool := Lib.encodable e.type.name && Lib.encodable e.text

@[simp] theorem encodable_describe (e : Exc) : Lib.encodable e.describe = e.encodable := by
  simp [describe, encodable]

end Exc

/-! ## §2 — the party record (`pokemon.py`). -/

/-- An unchanged, exact-length party record; equality is byte for byte, and a record of another length cannot
be built. -/
structure Pokemon100 where
  raw : Bytes
  size_eq : raw.length = 100
  deriving DecidableEq

namespace Pokemon100

def substructOrders : List String :=
  ["GAEM", "GAME", "GEAM", "GEMA", "GMAE", "GMEA",
   "AGEM", "AGME", "AEGM", "AEMG", "AMGE", "AMEG",
   "EGAM", "EGMA", "EAGM", "EAMG", "EMGA", "EMAG",
   "MGAE", "MGEA", "MAGE", "MAEG", "MEGA", "MEAG"]

/-- `Pokemon100(raw)`: the constructor, which refuses every length but 100. -/
def ofBytes (raw : Bytes) : Except Exc Pokemon100 :=
  if h : raw.length = 100 then .ok ⟨raw, h⟩
  else .error ⟨.invalidPokemon,
    "party Pokémon must be exactly 100 bytes; got " ++ lit (toString raw.length)⟩

/-- `hashlib.sha256(raw).hexdigest()`: the name under which journal and artifact directory know the record. -/
def sha256 (mon : Pokemon100) : PyStr := hex (Lib.sha256 mon.raw)

def shortHash (mon : Pokemon100) : PyStr := mon.sha256.take 12

def personality (mon : Pokemon100) : Nat := leNat (slice mon.raw 0 4)

def trainerId (mon : Pokemon100) : Nat := leNat (slice mon.raw 4 8)

/-- `_decrypted_secure`: bytes 32..79, every little-endian 32-bit word xored with the key, which is made of
the two ids. -/
def decryptedSecure (mon : Pokemon100) : Bytes :=
  let key := mon.personality ^^^ mon.trainerId
  let secure := slice mon.raw 32 80
  (List.range 12).flatMap fun i => leBytes 4 (leNat (slice secure (4 * i) (4 * i + 4)) ^^^ key)

def checksumValid (mon : Pokemon100) : Bool :=
  let secure := mon.decryptedSecure
  let calculated :=
    ((List.range 24).map fun i => leNat (slice secure (2 * i) (2 * i + 2))).sum &&& 0xFFFF
  let stored := leNat (slice mon.raw 28 30)
  calculated == stored

def heldItem (mon : Pokemon100) : Nat :=
  let secure := mon.decryptedSecure
  let order := substructOrders.getD (mon.personality % 24) ""
  let growthOffset := order.toList.idxOf 'G' * 12
  leNat (slice secure (growthOffset + 2) (growthOffset + 4))

def holdsMail (mon : Pokemon100) : Bool := decide (121 ≤ mon.heldItem) && decide (mon.heldItem ≤ 132)

/-- `refuse_mail`: a record whose held item is one of the Mail items is refused, since the letter itself does
not travel with it. -/
def refuseMail (mon : Pokemon100) : Except Exc Unit :=
  if mon.holdsMail then
    .error ⟨.mailNotSupported, "record " ++ mon.shortHash ++ " holds a Mail item (" ++
      lit (toString mon.heldItem) ++ "); v1 cannot prove 220-byte mail preservation"⟩
  else .ok ()

@[simp] theorem encodable_sha256 (mon : Pokemon100) : encodable mon.sha256 = true :=
  encodable_hex _

@[simp] theorem encodable_shortHash (mon : Pokemon100) : encodable mon.shortHash = true := by
  have h := mon.encodable_sha256
  simp only [encodable, List.all_eq_true] at h ⊢
  intro c hc
  exact h c (List.mem_of_mem_take hc)

theorem refuseMail_ok {mon : Pokemon100} : mon.refuseMail = .ok () ↔ mon.holdsMail = false := by
  unfold refuseMail
  cases mon.holdsMail <;> simp

theorem refuseMail_error {mon : Pokemon100} {e : Exc} (h : mon.refuseMail = .error e) :
    mon.holdsMail = true ∧ e.isException = true ∧ e.encodable = true := by
  unfold refuseMail at h
  split at h
  · rename_i hm
    injection h with h
    subst h
    exact ⟨hm, rfl, by simp [Exc.encodable, ExcType.name]⟩
  · exact absurd h (by simp)

theorem refuseMail_ordinary {mon : Pokemon100} {e : Exc} (h : mon.refuseMail = .error e) :
    e.Ordinary := by
  refine ⟨(refuseMail_error h).2.1, ?_⟩
  rw [refuseMail, if_pos (refuseMail_error h).1] at h
  rw [← Except.error.inj h]
  rfl

end Pokemon100

/-! ## §3 — endpoint results (`endpoints.py`). -/

/-- The two consoles the broker trades with. -/
inductive Console where
  | gba
  | switch
  deriving DecidableEq

structure TradeResult where
  offeredMon : Pokemon100
  receivedMon : Pokemon100
  commitConfirmed : Bool
  deriving DecidableEq

structure GbaTradeResult extends TradeResult where
  selectedSlot : Int
  linkClosed : Bool
  deriving DecidableEq

end TradeBroker
