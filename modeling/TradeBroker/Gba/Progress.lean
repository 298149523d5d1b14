/-
# TradeBroker.Gba.Progress — the decoder always comes to an end, and holds little.

The loop of `FrameDecoder.feed` is a `while True` over arbitrary bytes.  A pass that goes on took a whole
frame off the buffer; a pass that raises took at least the magic off it; a pass that breaks leaves the
beginning of one frame or at most three bytes (`turn_progress`).  So every call ends, what it leaves is
shorter than the longest frame, and a caller that goes on after errors gets an answer after finitely many
calls (`feed_progress`).  The check of the magic behind `find` can never fail (`unpackFrom_found`).

The bound on memory is what `Tidy` says, not a number that happens to fit: what stays is no longer than
one frame because a longer one would be complete or refused.  And it is said of calls that return.  A call
that raises may leave more, all that the caller has passed in one go, but each further call takes off at
least the four bytes of a magic, so that the buffer is tidy again after as many calls as that
(`feed_drains`).
-/
import TradeBroker.Gba.Decoding
import Mathlib.Logic.Function.Iterate

namespace TradeBroker.Gba

open Lib

namespace FrameDecoder

/-! ## §1 — what one pass leaves. -/

/-- What a call that returns may leave: a few bytes that may begin a magic, or the beginning of a frame that
declares a payload of an allowed size, shorter than that frame. -/
def Tidy (buf : Bytes) : Prop :=
  buf.length ≤ 3 ∨ magic <+: buf ∧ (buf.length < headerSize ∨
    (Header.unpackFrom buf).size ≤ maxPayload ∧ buf.length < declared buf)

/-- At most 4131 bytes: the longest frame less one byte. -/
theorem Tidy.length_le {buf : Bytes} (h : Tidy buf) : buf.length ≤ 4131 := by
  have hh : headerSize = 32 := rfl
  have hp : maxPayload = 4096 := rfl
  have hc : crcSize = 4 := rfl
  rcases h with h | ⟨-, h | ⟨hs, h⟩⟩
  · omega
  · omega
  · rw [declared] at h
    omega

/-- The error of the check that `find` makes superfluous: the magic is not where it was found. -/
def resyncFailure : Exc := protocolError "internal frame resynchronization failure"

/-- What `feed` raises: a `ProtocolError`, and not the one of that check. -/
def Refusal (e : Exc) : Prop := e.type = .protocolError ∧ e ≠ resyncFailure

theorem refusal_of_head {text : PyStr} {c : Char} (hc : text.head? = some (codePoint c))
    (hne : codePoint c ≠ codePoint 'i') : Refusal (protocolError text) := by
  refine ⟨rfl, ?_⟩
  intro he
  have htext : text = lit "internal frame resynchronization failure" := congrArg Exc.text he
  rw [htext] at hc
  exact hne (Option.some.inj hc).symm

/-- The checks of `Frame(...)` raise `ProtocolError`, each with its own text. -/
theorem create_error {t : MessageType} {id : Uuid} {sequence : Nat} {payload : Bytes} {flags : Nat} {e : Exc}
    (h : Frame.create t id sequence payload flags = .error e) : Refusal e := by
  unfold Frame.create at h
  split at h
  · split at h
    · rw [← Except.error.inj h]
      exact refusal_of_head (c := 'v') rfl (by decide)
    · split at h
      · cases h
      · rw [← Except.error.inj h]
        exact refusal_of_head (c := 'p') rfl (by decide)
  · rw [← Except.error.inj h]
    exact refusal_of_head (c := 'f') rfl (by decide)

/-- So do the checks on a complete frame, the CRC first. -/
theorem validate_error {h : Header} {encoded : Bytes} {expectedCrc : Nat} {e : Exc}
    (he : validate h encoded expectedCrc = .error e) : Refusal e := by
  unfold validate at he
  simp only at he
  split at he
  · rw [← Except.error.inj he]
    exact refusal_of_head (c := 'f') rfl (by decide)
  · split at he
    · rw [← Except.error.inj he]
      exact refusal_of_head (c := 'u') rfl (by decide)
    · split at he
      · rw [← Except.error.inj he]
        exact refusal_of_head (c := 'u') rfl (by decide)
      · split at he
        · rw [← Except.error.inj he]
          exact refusal_of_head (c := 'u') rfl (by decide)
        · exact create_error he

/-- **What one pass does**, whatever the buffer: it takes something off, it raises and takes a magic off at
least, or it waits with a tidy buffer. -/
theorem turn_progress : Advances turn magic.length Tidy Refusal := by
  have hh : headerSize = 32 := rfl
  have hmlen : magic.length = 4 := rfl
  -- each field reads one of the ways a pass can end off the same list of cases
  have hcases : ∀ p : Bytes,
      (∃ rest, turn p = .wait rest ∧ Tidy rest) ∨
        (∃ f rest, turn p = .emit f rest ∧ rest.length < p.length) ∨
          ∃ e rest, turn p = .fail e rest ∧ Refusal e ∧ rest.length + magic.length ≤ p.length := by
    intro p
    rcases turn_cases p with ⟨-, dropped, kept, rfl, hlen, hturn⟩ | ⟨noise, p, rfl, -, hm, hturn⟩
    · refine Or.inl ⟨kept, hturn, Or.inl ?_⟩
      rw [List.length_append] at hlen
      omega
    · have hnow := turn_now hturn
      have hlong := hm.length_le
      rcases turnAt_cases hm with ⟨hwait, hshort⟩ | ⟨h, -, hfail⟩ | ⟨h, -, ht, hturnAt⟩
      · refine Or.inl ⟨p, hnow.trans hwait, Or.inr ⟨hm, ?_⟩⟩
        rcases hshort with hshort | ⟨-, hs, hshort⟩
        · exact Or.inl hshort
        · exact Or.inr ⟨hs, hshort⟩
      · refine Or.inr (Or.inr ⟨_, _, hnow.trans hfail, refusal_of_head (c := 'd') rfl (by decide), ?_⟩)
        rw [List.length_drop, List.length_append]
        omega
      · have hdrop : (p.drop (declared p)).length + headerSize ≤ (noise ++ p).length := by
          rw [declared] at ht
          rw [List.length_drop, List.length_append, declared]
          omega
        cases hv : validateAt p with
        | error e =>
            rw [hv] at hturnAt
            exact Or.inr (Or.inr ⟨e, _, hnow.trans hturnAt, validate_error hv, by omega⟩)
        | ok f =>
            rw [hv] at hturnAt
            exact Or.inr (Or.inl ⟨f, _, hnow.trans hturnAt, by omega⟩)
  constructor
  · intro p rest h
    rcases hcases p with ⟨rest', hc, ht⟩ | ⟨f, rest', hc, -⟩ | ⟨e, rest', hc, -⟩
    · rw [hc] at h
      rw [← Turn.wait.inj h]
      exact ht
    · rw [hc] at h
      cases h
    · rw [hc] at h
      cases h
  · intro p rest h
    exact absurd h (turn_ne_skip p rest)
  · intro p f rest h
    rcases hcases p with ⟨rest', hc, -⟩ | ⟨f', rest', hc, hlt⟩ | ⟨e, rest', hc, -⟩
    · rw [hc] at h
      cases h
    · rw [hc] at h
      rw [← (Turn.emit.inj h).2]
      exact hlt
    · rw [hc] at h
      cases h
  · intro p e rest h
    rcases hcases p with ⟨rest', hc, -⟩ | ⟨f', rest', hc, -⟩ | ⟨e', rest', hc, hr, hk⟩
    · rw [hc] at h
      cases h
    · rw [hc] at h
      cases h
    · rw [hc] at h
      obtain ⟨rfl, rfl⟩ := Turn.fail.inj h
      exact ⟨hr, hk⟩

/-- The check of the magic after `find` has put it at the front can never fail. -/
theorem unpackFrom_found {buf : Bytes} {k : Nat} (h : find magic buf = some k) :
    (Header.unpackFrom (buf.drop k)).magic = magic := by
  obtain ⟨noise, tail, rfl, rfl, -⟩ := find_eq_some (by decide) h
  apply Header.magic_unpackFrom
  rw [List.drop_left]
  exact ⟨tail, rfl⟩

/-! ## §2 — calls. -/

variable (d : FrameDecoder)

/-- How the loop of a call ends: within as many passes as there are bytes, and as one pass ends. -/
theorem pass_ended (data : Bytes) :
    scanWithin turn ((d.buffer ++ data).length + 1) (d.buffer ++ data) = some (d.pass data) ∧
      (d.pass data).Ended magic.length Tidy Refusal (d.buffer ++ data) :=
  turn_progress.scanWithin (Nat.lt_succ_self _)

theorem feed_ok {data : Bytes} {frames : List Frame} {d' : FrameDecoder}
    (h : d.feed data = (.ok frames, d')) : Tidy d'.buffer := by
  rw [feed_eq] at h
  obtain ⟨hresult, rfl⟩ := Prod.mk.inj h
  rcases (d.pass_ended data).2 with ⟨-, htidy⟩ | ⟨e, he, -⟩
  · exact htidy
  · rw [he] at hresult
    cases hresult

theorem feed_error {data : Bytes} {e : Exc} {d' : FrameDecoder} (h : d.feed data = (.error e, d')) :
    Refusal e ∧ d'.buffer.length + magic.length ≤ (d.buffer ++ data).length := by
  rw [feed_eq] at h
  obtain ⟨hresult, rfl⟩ := Prod.mk.inj h
  rcases (d.pass_ended data).2 with ⟨hnone, -⟩ | ⟨e', he, hrefusal, hlen⟩
  · rw [hnone] at hresult
    cases hresult
  · rw [he] at hresult
    rw [← Except.error.inj hresult]
    exact ⟨hrefusal, hlen⟩

/-- The decoder after `feed(b"")`, a call that brings no bytes. -/
def fedNothing (d : FrameDecoder) : FrameDecoder := (d.feed []).2

/-- **After errors, an answer**: `feed(b"")` raises at most once for every four bytes in the buffer. -/
theorem feed_drains : ∃ n ≤ d.buffer.length / 4,
    (∀ k < n, ∃ e, ((fedNothing^[k] d).feed []).1 = .error e) ∧
      ∃ frames, ((fedNothing^[n] d).feed []).1 = .ok frames := by
  have hmlen : magic.length = 4 := rfl
  -- on the length of the buffer: a call that raises leaves a shorter one
  induction hlen : d.buffer.length using Nat.strong_induction_on generalizing d with
  | _ len ih =>
      cases hfeed : (d.feed []).1 with
      | ok frames =>
          refine ⟨0, Nat.zero_le _, ?_, frames, hfeed⟩
          intro k hk
          exact absurd hk (Nat.not_lt_zero k)
      | error e =>
          have hcall : d.feed [] = (.error e, fedNothing d) := Prod.ext hfeed rfl
          have hshort := (d.feed_error hcall).2
          rw [List.append_nil, hlen] at hshort
          obtain ⟨n, hn, herrors, frames, hok⟩ := ih (fedNothing d).buffer.length (by omega) (fedNothing d) rfl
          refine ⟨n + 1, by omega, ?_, frames, ?_⟩
          · intro k hk
            cases k with
            | zero => exact ⟨e, hfeed⟩
            | succ k =>
                rw [Function.iterate_succ_apply]
                exact herrors k (by omega)
          · rw [Function.iterate_succ_apply]
            exact hok

/-- **Progress and bounded memory.**  For every decoder and every input the loop of `feed` ends.  If the call
returns, at most 4131 bytes are left, and they are at most three, or begin with the magic and are shorter than
their header or than the frame it declares, whose payload is of an allowed size.  If it raises, it raises
`ProtocolError` after taking at least four bytes off the buffer, so calls with no data come to one that returns.
The check of the magic at the front never fails. -/
theorem feed_progress (data : Bytes) :
    scanWithin turn ((d.buffer ++ data).length + 1) (d.buffer ++ data) = some (d.pass data) ∧
      (∀ frames d', d.feed data = (.ok frames, d') → d'.buffer.length ≤ 4131 ∧
        (d'.buffer.length ≤ 3 ∨ magic <+: d'.buffer ∧ (d'.buffer.length < headerSize ∨
          (Header.unpackFrom d'.buffer).size ≤ maxPayload ∧
            d'.buffer.length < headerSize + (Header.unpackFrom d'.buffer).size + crcSize))) ∧
      (∀ e d', d.feed data = (.error e, d') → e.type = .protocolError ∧ e ≠ resyncFailure ∧
        d'.buffer.length + 4 ≤ (d.buffer ++ data).length) ∧
      (∃ n ≤ d.buffer.length / 4, (∀ k < n, ∃ e, ((fedNothing^[k] d).feed []).1 = .error e) ∧
        ∃ frames, ((fedNothing^[n] d).feed []).1 = .ok frames) ∧
      ∀ buf k, find magic buf = some k → (Header.unpackFrom (buf.drop k)).magic = magic := by
  refine ⟨(d.pass_ended data).1, ?_, ?_, d.feed_drains, fun _ _ => unpackFrom_found⟩
  · intro frames d' h
    have htidy := d.feed_ok h
    exact ⟨htidy.length_le, htidy⟩
  · intro e d' h
    obtain ⟨⟨htype, hne⟩, hlen⟩ := d.feed_error h
    exact ⟨htype, hne, hlen⟩

/-- A magic alone is kept; a header that declares `2 ^ 32 - 1` bytes is refused, and four bytes of it go, so
that the next call looks at the rest. -/
theorem feed_progress_oversized :
    (FrameDecoder.feed ⟨[]⟩ magic = (.ok [], ⟨magic⟩) ∧ magic.length ≤ 4131) ∧
      FrameDecoder.feed ⟨magic⟩ (List.replicate 28 0xFF) =
        (.error (protocolError "declared payload exceeds 4096 bytes"), ⟨List.replicate 28 0xFF⟩) ∧
        (List.replicate 28 (0xFF : UInt8)).length + 4 ≤ (magic ++ List.replicate 28 0xFF).length := by
  have hkept : FrameDecoder.feed ⟨[]⟩ magic = (.ok [], ⟨magic⟩) := rfl
  have hrefused : FrameDecoder.feed ⟨magic⟩ (List.replicate 28 0xFF) =
      (.error (protocolError "declared payload exceeds 4096 bytes"), ⟨List.replicate 28 0xFF⟩) := rfl
  exact ⟨⟨hkept, ((feed_progress ⟨[]⟩ magic).2.1 _ _ hkept).1⟩, hrefused,
    ((feed_progress ⟨magic⟩ (List.replicate 28 0xFF)).2.2.1 _ _ hrefused).2.2⟩

end FrameDecoder

end TradeBroker.Gba
