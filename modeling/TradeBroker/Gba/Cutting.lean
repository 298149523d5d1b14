/-
# TradeBroker.Gba.Cutting — the outcome of a trade, and how its stream was cut into reads.

A stream of device frames reaches `trade_once` in reads of at most 512 bytes, and where the cuts fall
is up to the link.  The outcome should be a matter of the frames and their order; it is one exactly
as long as no read brings, behind the frame that ends a wait, a frame that the next wait would heed.

`InStep` is that condition, on the frames that each read completes (`arrivals`): it looks at the cutting
and at the machine of `Gba.Exchange`, not at what the call returns.  That it is needed as well is a
statement about continuations: a read that overtakes a wait need not change the outcome by itself, since
the device may never say anything that the lost frame would have mattered for.  But the device is free in
what it sends next, and from that read on there are frames with which the outcome differs from that of the
same frames read one at a time (`exists_outcome_ne`).
-/
import TradeBroker.Gba.Exchange

namespace TradeBroker.Gba

open Lib GbLinkEndpoint

/-! ## §1 — an endpoint in the middle of a stream. -/

/-- The frame is newer than what the window has accepted of its transaction, if it has accepted anything. -/
def Above (r : ReplayWindow) (txid : Uuid) (f : Frame) : Prop := ∀ n ∈ r.last txid, n < f.sequence

/-- Strictly increasing sequences: of two frames the later has the higher number. -/
def Increasing (fs : List Frame) : Prop := fs.Pairwise fun f g => f.sequence < g.sequence

/-- The frames to come and the reads that bring them; of the first frame the decoder may hold a part already.
How long the reads are is not said here. -/
structure Streaming (ep : GbLinkEndpoint) (fs : List Frame) (cut : List Bytes) : Prop where
  stream : wire Frame.encode fs = ep.decoder.buffer ++ cut.flatten
  short : Short Frame.encode ep.decoder.buffer.length fs

/-- Frames of the endpoint's transaction, in the order of their sequences: what a device sends that keeps to
the protocol, whatever the frames say. -/
structure FromDevice (ep : GbLinkEndpoint) (fs : List Frame) : Prop where
  txid : ∀ f ∈ fs, f.transactionId = ep.txid
  increasing : Increasing fs

theorem FromDevice.of_sublist {ep : GbLinkEndpoint} {fs gs : List Frame} (h : FromDevice ep gs)
    (hsub : fs.Sublist gs) : FromDevice ep fs :=
  ⟨fun f hf => h.txid f (hsub.subset hf), h.increasing.sublist hsub⟩

/-- A stream whose frames are all new to the endpoint's replay window. -/
structure Listening (ep : GbLinkEndpoint) (fs : List Frame) (cut : List Bytes) : Prop extends
    Streaming ep fs cut, FromDevice ep fs where
  above : ∀ f ∈ fs, Above ep.replay ep.txid f

/-- The frames that each read will complete, read by read: a frame counts for the read that brings its last
byte. -/
def arrivals (ep : GbLinkEndpoint) (fs : List Frame) (cut : List Bytes) : List (List Frame) :=
  groups Frame.encode ep.decoder.buffer.length fs cut

/-- A newer frame is accepted, and becomes the last one. -/
theorem accept_above {r : ReplayWindow} {f : Frame} (h : Above r f.transactionId f) :
    r.accept f = (.ok (), ⟨Function.update r.last f.transactionId (some f.sequence)⟩) := by
  unfold ReplayWindow.accept
  cases hr : r.last f.transactionId with
  | none => rfl
  | some n =>
      have hn : n < f.sequence := h n (by simp [hr])
      simp only
      rw [if_neg (by omega)]

theorem above_update {r : ReplayWindow} {f g : Frame} (h : f.sequence < g.sequence) :
    Above ⟨Function.update r.last f.transactionId (some f.sequence)⟩ f.transactionId g := by
  intro n hn
  simp only [Function.update_self, Option.mem_some_iff] at hn
  omega

/-- What the `for` loop gives back, when nothing in the read is foreign or old: the first frame that is
heeded, as a result or as the exception for an `ERROR`, or nothing. -/
def sifted (wanted : List MessageType) (read : List Frame) : Except Exc (Option Frame) :=
  match heeded wanted read with
  | [] => .ok none
  | f :: _ => if f.messageType ∈ wanted then .ok (some f) else .error (linkError f)

/-- The loop over one read: it stops at the first heeded frame, and what comes later is still new to
the window. -/
theorem sift_read (wanted : List MessageType) {txid : Uuid} {r : ReplayWindow}
    {read later : List Frame} (htx : ∀ f ∈ read, f.transactionId = txid)
    (hinc : Increasing (read ++ later)) (habove : ∀ f ∈ read ++ later, Above r txid f) :
    (sift txid wanted read r).1 = sifted wanted read ∧
      ∀ f ∈ later, Above (sift txid wanted read r).2 txid f := by
  induction read generalizing r with
  | nil => exact ⟨rfl, habove⟩
  | cons f read ih =>
      have hf : f.transactionId = txid := htx f (by simp)
      subst hf
      rw [List.cons_append, Increasing, List.pairwise_cons] at hinc
      have hacc := accept_above (habove f (by simp))
      have hnew : ∀ g ∈ read ++ later, Above
          ⟨Function.update r.last f.transactionId (some f.sequence)⟩ f.transactionId g := by
        intro g hg
        exact above_update (hinc.1 g hg)
      have hlater : ∀ g ∈ later, Above
          ⟨Function.update r.last f.transactionId (some f.sequence)⟩ f.transactionId g := by
        intro g hg
        exact hnew g (by simp [hg])
      simp only [sift, ne_eq, not_true_eq_false, if_false, hacc]
      by_cases hw : f.messageType ∈ wanted
      · have hh : heeded wanted (f :: read) = f :: read := by
          simp [heeded, heeds, hw]
        rw [if_pos hw, sifted, hh]
        exact ⟨by simp [hw], hlater⟩
      · rw [if_neg hw]
        by_cases he : f.messageType = .error
        · have hh : heeded wanted (f :: read) = f :: read := by
            simp [heeded, heeds, he]
          rw [if_pos he, sifted, hh]
          exact ⟨by simp [hw, linkError], hlater⟩
        · have hh : heeded wanted (f :: read) = heeded wanted read := by
            simp [heeded, heeds, hw, he]
          rw [if_neg he, sifted, hh]
          exact ih (fun g hg => htx g (by simp [hg])) hinc.2 hnew

/-- One read that brings data: the decoder returns the frames that it completes, and what is left is a stream
again. -/
theorem Streaming.feed {ep : GbLinkEndpoint} {fs : List Frame} {data : Bytes} {cut : List Bytes}
    (h : Streaming ep fs (data :: cut)) :
    ∃ read later rest, fs = read ++ later ∧ ep.decoder.feed data = (.ok read, ⟨rest⟩) ∧
      arrivals ep fs (data :: cut) = read :: groups Frame.encode rest.length later cut ∧
      wire Frame.encode later = rest ++ cut.flatten ∧ Short Frame.encode rest.length later := by
  have hs : wire Frame.encode fs = ep.decoder.buffer ++ (data ++ cut.flatten) := by
    rw [h.stream, List.flatten_cons]
  obtain ⟨rest, hfeed, hrest, hwire⟩ := FrameDecoder.feed_stream hs
  obtain ⟨hsplit, _, hshort⟩ :=
    arrive_spec Frame.encode (ep.decoder.buffer.length + data.length) fs
  rw [← hrest] at hshort
  refine ⟨_, _, rest, hsplit, hfeed, ?_, hwire, hshort⟩
  rw [arrivals, groups, ← hrest]

/-- A read of no bytes completes no frame, and leaves the stream as it is. -/
theorem Streaming.arrivals_nothing {ep : GbLinkEndpoint} {fs : List Frame} {cut : List Bytes}
    (h : Streaming ep fs ([] :: cut)) : arrivals ep fs ([] :: cut) = [] :: arrivals ep fs cut := by
  have hnone : arrive Frame.encode ep.decoder.buffer.length ([] ++ fs) =
      ([], ep.decoder.buffer.length, fs) := arrive_append (by simp) h.short
  simp only [List.nil_append] at hnone
  simp only [arrivals, groups, List.length_nil, Nat.add_zero, hnone]

/-- The first frame that a wait heeds, and the reads after the one that brought it: the rest of that read is
not among them. -/
def heed (wanted : List MessageType) : List (List Frame) → Option (Frame × List (List Frame))
  | [] => none
  | read :: reads =>
      match heeded wanted read with
      | [] => heed wanted reads
      | f :: _ => some (f, reads)

/-- How a wait ends, given the first frame it heeds: with that frame, with the exception for an `ERROR`, or,
when there is none, with the timeout. -/
def Waited (wanted : List MessageType) (cut : List Bytes) (ep : GbLinkEndpoint) :
    Option (Frame × List (List Frame)) → Prop
  | none => (waitLoop wanted (cut.map .ok) ep).1 = .error (timeoutError wanted)
  | some (f, reads) =>
      if f.messageType ∈ wanted then
        ∃ ep' fs' cut', waitLoop wanted (cut.map .ok) ep = (.ok f, ep') ∧
          ep'.transport.reads = cut'.map .ok ∧ Listening ep' fs' cut' ∧ arrivals ep' fs' cut' = reads
      else (waitLoop wanted (cut.map .ok) ep).1 = .error (linkError f)

/-- **One wait.**  It ends with the first heeded frame, and the next wait begins with the read after
the one that brought it. -/
theorem waitLoop_heed {ep : GbLinkEndpoint} {fs : List Frame} {cut : List Bytes}
    (wanted : List MessageType) (h : Listening ep fs cut) :
    Waited wanted cut ep (heed wanted (arrivals ep fs cut)) := by
  induction cut generalizing ep fs with
  | nil => rfl
  | cons data cut ih =>
      by_cases hd : data = []
      · -- nothing arrived: the endpoint and the stream are as before
        subst hd
        have hsame : Listening ep fs cut := ⟨⟨h.stream, h.short⟩, h.toFromDevice, h.above⟩
        have harr := h.toStreaming.arrivals_nothing
        have hloop : waitLoop wanted (List.map Except.ok ([] :: cut)) ep =
            waitLoop wanted (cut.map Except.ok) ep := by
          rw [List.map_cons, waitLoop, if_pos rfl]
        have := ih hsame
        rw [harr]
        simp only [heed, heeded, List.dropWhile_nil]
        unfold Waited at this ⊢
        rw [hloop]
        exact this
      · obtain ⟨read, later, rest, rfl, hfeed, harr, hwire, hshort⟩ := h.toStreaming.feed
        obtain ⟨hsift, habove⟩ := sift_read wanted
          (fun f hf => h.txid f (by simp [hf])) h.increasing h.above
        rw [harr, heed]
        rcases hr : sift ep.txid wanted read ep.replay with ⟨res, r⟩
        rw [hr] at hsift habove
        simp only at hsift habove
        subst hsift
        have hnext : ∀ tr : Transport, Listening
            { ep with decoder := ⟨rest⟩, replay := r, transport := tr } later cut := by
          intro tr
          refine ⟨⟨hwire, hshort⟩, ⟨fun f hf => h.txid f (by simp [hf]), ?_⟩, habove⟩
          exact (List.pairwise_append.mp h.increasing).2.1
        cases hh : heeded wanted read with
        | nil =>
            rw [sifted, hh] at hr
            have hloop : waitLoop wanted (List.map Except.ok (data :: cut)) ep =
                waitLoop wanted (cut.map Except.ok) { ep with decoder := ⟨rest⟩, replay := r } := by
              rw [List.map_cons, waitLoop, if_neg hd]
              simp only [hfeed, hr]
            have := ih (hnext ep.transport)
            unfold Waited at this ⊢
            rw [hloop]
            exact this
        | cons f behind =>
            simp only [Waited]
            by_cases hw : f.messageType ∈ wanted
            · rw [if_pos hw]
              simp only [sifted, hh, if_pos hw] at hr
              refine ⟨_, later, cut, ?_, rfl, hnext { ep.transport with reads := cut.map .ok }, rfl⟩
              rw [List.map_cons, waitLoop, if_neg hd]
              simp only [hfeed, hr]
            · rw [if_neg hw]
              simp only [sifted, hh, if_neg hw] at hr
              rw [List.map_cons, waitLoop, if_neg hd]
              simp only [hfeed, hr]

/-! ## §2 — the whole conversation. -/

section Conversation

variable {offerSlot : Fin 6} {offered : Pokemon100}

/-- The machine run read by read is a wait, and then the machine from what it took up. -/
theorem follow_heed (st : Stage) (reads : List (List Frame)) :
    follow offerSlot offered st reads =
      match heed st.wanted reads with
      | none => .error (timeoutError st.wanted)
      | some (f, reads') =>
          match react offerSlot offered st f with
          | .ends o => o
          | .goes st' => follow offerSlot offered st' reads' := by
  induction reads with
  | nil => rfl
  | cons read reads ih =>
      rw [follow, heed]
      cases heeded st.wanted read with
      | nil => exact ih
      | cons f behind => rfl

/-- **The waits of the endpoint follow the machine**, one reaction for each read at most, as long as the fuel
is enough for the stages that are left. -/
theorem drive_follow {n : Nat} {st : Stage} {ep : GbLinkEndpoint} {fs : List Frame}
    {cut : List Bytes} (hn : st.steps ≤ n) (h : Listening ep fs cut)
    (hreads : ep.transport.reads = cut.map .ok) :
    (ep.call (drive offerSlot offered n st)).1 =
      follow offerSlot offered st (arrivals ep fs cut) := by
  induction n generalizing st ep fs cut with
  | zero =>
      cases st <;> simp [Stage.steps] at hn
  | succ n ih =>
      have hcall : ep.call (waitFor st.wanted) = waitLoop st.wanted (cut.map .ok) ep := by
        rw [← hreads]
        rfl
      have hw := waitLoop_heed st.wanted h
      rw [drive, call_bind, hcall, follow_heed]
      cases hheed : heed st.wanted (arrivals ep fs cut) with
      | none =>
          rw [hheed] at hw
          simp only [Waited] at hw
          rcases hr : waitLoop st.wanted (cut.map .ok) ep with ⟨res, ep'⟩
          rw [hr] at hw
          simp only at hw
          subst hw
          rfl
      | some p =>
          obtain ⟨f, reads'⟩ := p
          rw [hheed] at hw
          simp only [Waited] at hw
          by_cases hf : f.messageType ∈ st.wanted
          · rw [if_pos hf] at hw
            obtain ⟨ep', fs', cut', hloop, hreads', hlisten, harr⟩ := hw
            rw [hloop]
            simp only [react, if_pos hf]
            cases hnext : st.next offerSlot offered f with
            | ends o => rfl
            | goes st' =>
                have hsteps := Stage.steps_next hnext
                simp only [proceed]
                rw [← harr]
                exact ih (by omega) hlisten hreads'
          · rw [if_neg hf] at hw
            rcases hr : waitLoop st.wanted (cut.map .ok) ep with ⟨res, ep'⟩
            rw [hr] at hw
            simp only at hw
            subst hw
            simp only [react, if_neg hf]

end Conversation

/-! ## §3 — the outcome. -/

/-- The endpoint when these reads are still to come, each of them answered with data. -/
def withReads (ep : GbLinkEndpoint) (cut : List Bytes) : GbLinkEndpoint :=
  { ep with transport.reads := cut.map .ok }

/-- The frame that carries the offer, if its sequence number and its payload fit. -/
def offerFrame (ep : GbLinkEndpoint) (offered : Pokemon100) : Except Exc Frame :=
  Frame.create .setOfferMon ep.txid (ep.outSequence + 1) (UInt8.ofNat ep.offerSlot :: offered.raw) 0

/-- The exception that ends the trade before its first wait, if one does: the endpoint is not
connected, the record holds mail, or the offer cannot be sent. -/
def refusal (ep : GbLinkEndpoint) (offered : Pokemon100) : Option Exc :=
  if ep.connected then
    match offered.refuseMail with
    | .error e => some e
    | .ok () =>
        match offerFrame ep offered with
        | .error e => some e
        | .ok _ =>
            match ep.transport.writes with
            | .error e :: _ => some e
            | _ => none
  else some (endpointError "GB-Link endpoint is not connected")

/-- The endpoint after the offer went out: a sequence number further, its receiving side as it was. -/
def offering (ep : GbLinkEndpoint) (data : Bytes) : GbLinkEndpoint :=
  { ep with
    outSequence := ep.outSequence + 1
    transport.writes := ep.transport.writes.tail
    transport.written := ep.transport.written ++ [data] }

/-- **The trade up to its first wait.**  It raises its refusal, or it gets to the waits with the
receiving side untouched. -/
theorem call_tradeOnce (ep : GbLinkEndpoint) (offered : Pokemon100) :
    match refusal ep offered with
    | some e => (ep.call (tradeOnce offered)).1 = .error e
    | none => ∃ data, ep.call (tradeOnce offered) =
        (offering ep data).call (drive ep.offerSlot offered 7 .ready) := by
  rw [tradeOnce_eq_drive, call_get_bind, call_require_bind, call_answer_bind, refusal]
  by_cases hc : ep.connected = true
  · rw [if_pos hc, if_pos hc]
    cases offered.refuseMail with
    | error e => rfl
    | ok u =>
        simp only [call_bind, call_send]
        rw [← offerFrame]
        cases offerFrame ep offered with
        | error e => rfl
        | ok frame =>
            dsimp only
            cases hw : ep.transport.writes with
            | nil =>
                refine ⟨frame.encode, ?_⟩
                rw [call_write { ep with outSequence := ep.outSequence + 1 } (by simp [hw])]
                rfl
            | cons a rest =>
                cases a with
                | error e =>
                    have he := call_write_error
                      { ep with outSequence := ep.outSequence + 1 } hw frame.encode
                    rcases hr : ({ ep with outSequence := ep.outSequence + 1 } :
                      GbLinkEndpoint).call (write frame.encode) with ⟨res, ep'⟩
                    rw [hr] at he
                    simp only at he
                    subst he
                    rfl
                | ok u =>
                    refine ⟨frame.encode, ?_⟩
                    rw [call_write { ep with outSequence := ep.outSequence + 1 }
                      (by simp [hw])]
                    rfl
  · rw [if_neg hc, if_neg hc]

/-- No refusal looks at the reads: all of them come before the first wait. -/
theorem refusal_withReads (ep : GbLinkEndpoint) (cut : List Bytes) (offered : Pokemon100) :
    refusal (withReads ep cut) offered = refusal ep offered := by
  simp only [refusal, offerFrame, withReads]
  rfl

/-- A refused trade raises its refusal, however the stream is cut. -/
theorem tradeOnce_refused {ep : GbLinkEndpoint} {offered : Pokemon100} {e : Exc}
    (h : refusal ep offered = some e) (cut : List Bytes) :
    ((withReads ep cut).call (tradeOnce offered)).1 = .error e := by
  have hcall := call_tradeOnce (withReads ep cut) offered
  rw [refusal_withReads, h] at hcall
  exact hcall

/-- A trade that is not refused gets to its waits. -/
theorem tradeOnce_opened {ep : GbLinkEndpoint} {offered : Pokemon100}
    (h : refusal ep offered = none) (cut : List Bytes) :
    ∃ data, (withReads ep cut).call (tradeOnce offered) =
      (offering (withReads ep cut) data).call (drive ep.offerSlot offered 7 .ready) := by
  have hcall := call_tradeOnce (withReads ep cut) offered
  rw [refusal_withReads, h] at hcall
  exact hcall

/-- A way of cutting the stream: what the reads bring, each of at most 512 bytes, which is what one `read` of
the endpoint asks the transport for. -/
structure Cutting (ep : GbLinkEndpoint) (fs : List Frame) (cut : List Bytes) : Prop extends
    Streaming ep fs cut where
  size : ∀ data ∈ cut, data.length ≤ 512

/-- When the first frame is new to the window all of them are, since they increase. -/
theorem above_of_head {ep : GbLinkEndpoint} {fs : List Frame} (h : FromDevice ep fs)
    (hhead : ∀ f ∈ fs.head?, Above ep.replay ep.txid f) : ∀ f ∈ fs, Above ep.replay ep.txid f := by
  cases fs with
  | nil => simp
  | cons f fs =>
      have hf : Above ep.replay ep.txid f := hhead f (by simp)
      have hlt := (List.pairwise_cons.mp h.increasing).1
      intro g hg n hn
      rcases List.mem_cons.mp hg with rfl | hg
      · exact hf n hn
      · exact Nat.lt_trans (hf n hn) (hlt g hg)

/-- **What `trade_once` computes.**  Once it gets to its waits, and the first frame is new, the
outcome is that of the machine run read by read. -/
theorem tradeOnce_follow {ep : GbLinkEndpoint} {offered : Pokemon100} {fs : List Frame}
    {cut : List Bytes} (hfs : FromDevice ep fs) (hcut : Streaming ep fs cut)
    (hopen : refusal ep offered = none) (hhead : ∀ f ∈ fs.head?, Above ep.replay ep.txid f) :
    ((withReads ep cut).call (tradeOnce offered)).1 =
      follow ep.offerSlot offered .ready (arrivals ep fs cut) := by
  obtain ⟨data, hcall⟩ := tradeOnce_opened hopen cut
  have habove := above_of_head hfs hhead
  have hlisten : Listening (offering (withReads ep cut) data) fs cut :=
    ⟨⟨hcut.stream, hcut.short⟩, ⟨hfs.txid, hfs.increasing⟩, habove⟩
  rw [hcall]
  exact drive_follow (Nat.le_refl 7) hlisten rfl

/-- A first frame that the window has seen ends the first wait, wherever the cuts fall. -/
theorem waitLoop_stale (ep : GbLinkEndpoint) {f : Frame} {fs : List Frame} {cut : List Bytes} {e : Exc}
    (wanted : List MessageType) (hs : Streaming ep (f :: fs) cut) (htx : f.transactionId = ep.txid)
    (hold : (ep.replay.accept f).1 = .error e) :
    (waitLoop wanted (cut.map .ok) ep).1 = .error e := by
  induction cut generalizing ep with
  | nil =>
      have hlen := congrArg List.length hs.stream
      have hshort := hs.short f (by simp)
      simp only [wire_cons, List.length_append, List.flatten_nil, List.length_nil] at hlen
      omega
  | cons data cut ih =>
      by_cases hd : data = []
      · subst hd
        rw [List.map_cons, waitLoop, if_pos rfl]
        exact ih _ ⟨hs.stream, hs.short⟩ htx hold
      · obtain ⟨read, later, rest, hsplit, hfeed, -, hwire, hshort⟩ := hs.feed
        rw [List.map_cons, waitLoop, if_neg hd]
        simp only [hfeed]
        cases read with
        | nil =>
            rw [List.nil_append] at hsplit
            subst hsplit
            exact ih _ ⟨hwire, hshort⟩ htx hold
        | cons g read =>
            obtain ⟨rfl, -⟩ : f = g ∧ fs = read ++ later := by
              simpa using hsplit
            rcases hacc : ep.replay.accept f with ⟨res, r⟩
            rw [hacc] at hold
            simp only at hold
            subst hold
            simp only [sift, htx, ne_eq, not_true_eq_false, if_false, hacc]

/-- When the first frame is no new one, the outcome does not depend on the cuts either. -/
theorem tradeOnce_stale {ep : GbLinkEndpoint} {offered : Pokemon100} {fs : List Frame}
    (hfs : FromDevice ep fs) (hopen : refusal ep offered = none)
    (hhead : ¬ ∀ f ∈ fs.head?, Above ep.replay ep.txid f) :
    ∃ e, ∀ cut, Streaming ep fs cut → ((withReads ep cut).call (tradeOnce offered)).1 = .error e := by
  cases fs with
  | nil => exact absurd (by simp) hhead
  | cons f fs =>
      have htx : f.transactionId = ep.txid := hfs.txid f (by simp)
      obtain ⟨e, he⟩ : ∃ e, (ep.replay.accept f).1 = .error e := by
        simp only [List.head?_cons, Option.mem_some_iff, forall_eq', Above, not_forall] at hhead
        obtain ⟨n, hn, hle⟩ := hhead
        rw [ReplayWindow.accept, htx, Option.mem_def.mp hn]
        simp only
        rw [if_pos (by omega)]
        exact ⟨_, rfl⟩
      refine ⟨e, fun cut hcut => ?_⟩
      obtain ⟨data, hcall⟩ := tradeOnce_opened hopen cut
      have hwait := waitLoop_stale (offering (withReads ep cut) data) Stage.ready.wanted
        ⟨hcut.stream, hcut.short⟩ htx he
      rw [hcall, drive, call_bind]
      have hfor : (offering (withReads ep cut) data).call (waitFor Stage.ready.wanted) =
          waitLoop Stage.ready.wanted (cut.map .ok) (offering (withReads ep cut) data) := rfl
      rw [hfor]
      rcases hr : waitLoop Stage.ready.wanted (cut.map .ok) (offering (withReads ep cut) data) with
        ⟨res, ep'⟩
      rw [hr] at hwait
      simp only at hwait
      subst hwait
      rfl

theorem flatten_arrivals {ep : GbLinkEndpoint} {fs : List Frame} {cut : List Bytes}
    (h : Streaming ep fs cut) : (arrivals ep fs cut).flatten = fs := by
  refine flatten_groups h.short ?_
  rw [h.stream, List.length_append]

/-- The reads keep step with the waits: once the trade has got to them, no read brings, behind the
frame that ends a wait, a frame that the next wait would heed. -/
def InStep (ep : GbLinkEndpoint) (offered : Pokemon100) (fs : List Frame) (cut : List Bytes) : Prop :=
  refusal ep offered = none → (∀ f ∈ fs.head?, Above ep.replay ep.txid f) →
    calm ep.offerSlot offered .ready (arrivals ep fs cut) = true

/-- Two cuttings that keep step have one result, down to the text of an exception: that of the frames in
order. -/
theorem tradeOnce_eq_of_inStep {ep : GbLinkEndpoint} {offered : Pokemon100} {fs : List Frame}
    {cut cut' : List Bytes} (hfs : FromDevice ep fs) (hcut : Cutting ep fs cut)
    (hcut' : Cutting ep fs cut') (hstep : InStep ep offered fs cut)
    (hstep' : InStep ep offered fs cut') :
    ((withReads ep cut).call (tradeOnce offered)).1 =
      ((withReads ep cut').call (tradeOnce offered)).1 := by
  cases hopen : refusal ep offered with
  | some e => rw [tradeOnce_refused hopen cut, tradeOnce_refused hopen cut']
  | none =>
      by_cases hhead : ∀ f ∈ fs.head?, Above ep.replay ep.txid f
      · have hcalm := hstep hopen hhead
        have hcalm' := hstep' hopen hhead
        rw [tradeOnce_follow hfs hcut.toStreaming hopen hhead,
          tradeOnce_follow hfs hcut'.toStreaming hopen hhead, follow_eq_inOrder hcalm,
          follow_eq_inOrder hcalm', flatten_arrivals hcut.toStreaming,
          flatten_arrivals hcut'.toStreaming]
      · obtain ⟨e, he⟩ := tradeOnce_stale hfs hopen hhead
        rw [he cut hcut.toStreaming, he cut' hcut'.toStreaming]

/-- A read of one byte is a read the transport can make. -/
theorem length_le_of_mem_bytewise {data bs : Bytes} (h : data ∈ bytewise bs) : data.length ≤ 512 := by
  obtain ⟨b, -, rfl⟩ := List.mem_map.mp h
  simp

/-- A stream may also be read byte by byte, which is a cutting like any other. -/
theorem Cutting.slow {ep : GbLinkEndpoint} {fs : List Frame} {cut : List Bytes} (h : Cutting ep fs cut) :
    Cutting ep fs (bytewise cut.flatten) :=
  ⟨⟨by rw [h.stream, flatten_bytewise], h.short⟩, fun _ hdata => length_le_of_mem_bytewise hdata⟩

/-- Byte by byte, no read completes more than one frame, so none can overtake a wait. -/
theorem Cutting.slow_single {ep : GbLinkEndpoint} {fs : List Frame} {cut : List Bytes}
    (h : Cutting ep fs cut) : ∀ read ∈ arrivals ep fs (bytewise cut.flatten), read.length ≤ 1 :=
  groups_bytewise Frame.encode_ne_nil h.short

/-- **A device may go on as it likes.**  Behind any read of its stream it can send other frames, with
higher sequences and one of them in a read; up to that read the reads bring what they brought. -/
theorem Cutting.continues {ep : GbLinkEndpoint} {fs more : List Frame} {cut : List Bytes}
    {before after : List (List Frame)} {read : List Frame} (hcut : Cutting ep fs cut)
    (hfs : FromDevice ep fs) (hne : read ≠ []) (harr : arrivals ep fs cut = before ++ read :: after)
    (hmore : FromDevice ep more) (hlater : ∀ f ∈ fs, ∀ g ∈ more, f.sequence < g.sequence) :
    ∃ cut' single, FromDevice ep (before.flatten ++ read ++ more) ∧
      Cutting ep (before.flatten ++ read ++ more) cut' ∧
      (before.flatten ++ read ++ more).head? = fs.head? ∧
      arrivals ep (before.flatten ++ read ++ more) cut' = before ++ read :: single ∧
      (∀ r ∈ single, r.length ≤ 1) ∧ single.flatten = more := by
  obtain ⟨pieces, hsize, hwire, hgroups⟩ :=
    exists_pieces Frame.encode_ne_nil hne hcut.short rfl hcut.stream harr
  have hsplit : fs = (before.flatten ++ read) ++ after.flatten := by
    rw [← flatten_arrivals hcut.toStreaming, harr]
    simp
  have hnonempty : before.flatten ++ read ≠ [] := by simp [hne]
  have hkept : ∀ f ∈ before.flatten ++ read, f ∈ fs := by
    intro f hf
    rw [hsplit]
    exact List.mem_append_left _ hf
  have hshort : Short Frame.encode ep.decoder.buffer.length (before.flatten ++ read ++ more) := by
    have hshort := hcut.short
    rw [hsplit] at hshort
    exact hshort.extend hnonempty more
  have hzero : Short Frame.encode 0 more := FrameDecoder.decoder_delimits.short_zero more
  refine ⟨pieces ++ bytewise (wire Frame.encode more),
    groups Frame.encode 0 more (bytewise (wire Frame.encode more)), ⟨?_, ?_⟩, ⟨⟨?_, hshort⟩, ?_⟩, ?_, ?_,
    groups_bytewise Frame.encode_ne_nil hzero, flatten_groups hzero (by simp)⟩
  · intro f hf
    rcases List.mem_append.mp hf with hf | hf
    · exact hfs.txid f (hkept f hf)
    · exact hmore.txid f hf
  · have hinc := hfs.increasing
    rw [hsplit] at hinc
    exact List.pairwise_append.mpr ⟨(List.pairwise_append.mp hinc).1, hmore.increasing,
      fun f hf g hg => hlater f (hkept f hf) g hg⟩
  · rw [wire_append, hwire, List.append_assoc, List.flatten_append, flatten_bytewise]
  · intro data hdata
    rcases List.mem_append.mp hdata with hdata | hdata
    · obtain ⟨q, hq, hle⟩ := hsize data hdata
      exact Nat.le_trans hle (hcut.size q hq)
    · exact length_le_of_mem_bytewise hdata
  · rw [hsplit, List.head?_append_of_ne_nil _ hnonempty, List.head?_append_of_ne_nil _ hnonempty]
  · rw [arrivals, hgroups]

/-- What the reads bring up to some read, when they bring the same up to there and differ behind it. -/
theorem take_of_continues {before after single : List (List Frame)} {read : List Frame} :
    (before ++ read :: single).take (before.length + 1) = (before ++ read :: after).take (before.length + 1) ∧
      (before ++ read :: single).drop (before.length + 1) = single := by
  simp [List.take_append, List.drop_append]

/-- A provocation comes from the device, behind everything whose sequences leave room for it: it uses the
highest numbers there are. -/
theorem provocation_fromDevice (ep : GbLinkEndpoint) (far : Stage) :
    FromDevice ep (provocation ep.txid far) :=
  ⟨fun _ hf => (provocation_new ep.txid hf).1, provocation_increasing ep.txid⟩

/-- A cutting that overtakes a wait can go on so that the outcome is another one than in order.  The endpoint
stands at a stage that the frames in order have left, and the provocation of one of the two ends that one
and not the other. -/
theorem exists_outcome_ne {ep : GbLinkEndpoint} {offered : Pokemon100} {fs : List Frame}
    {cut : List Bytes} (hfs : FromDevice ep fs) (hcut : Cutting ep fs cut)
    (hopen : refusal ep offered = none) (hhead : ∀ f ∈ fs.head?, Above ep.replay ep.txid f)
    (hroom : ∀ f ∈ fs, f.sequence < 0xFFFFFFFE)
    (hcalm : calm ep.offerSlot offered .ready (arrivals ep fs cut) = false) :
    ∃ k fs' cut' slow, FromDevice ep fs' ∧ Cutting ep fs' cut' ∧ Cutting ep fs' slow ∧
      (arrivals ep fs' cut').take k = (arrivals ep fs cut).take k ∧
      (∀ read ∈ (arrivals ep fs' cut').drop k, read.length ≤ 1) ∧
      (∀ read ∈ arrivals ep fs' slow, read.length ≤ 1) ∧
      outcome ((withReads ep cut').call (tradeOnce offered)).1 ≠
        outcome ((withReads ep slow).call (tradeOnce offered)).1 := by
  obtain ⟨before, read, after, st, harr, hne, hsteps, hfollow, hreach⟩ := overtaken hcalm
  obtain ⟨far, hfar⟩ := exists_provocation ep.txid (Nat.le_of_lt_succ hsteps) hreach
  -- the frames up to the read that overtakes, and then the ones that tell the difference
  obtain ⟨cut', single, hdev, hcut', hsame, harr', hsingle, hflat⟩ :=
    hcut.continues hfs hne harr (provocation_fromDevice ep far) fun f hf g hg =>
      Nat.lt_of_lt_of_le (hroom f hf) (provocation_new ep.txid hg).2
  have hhead' := hhead
  rw [← hsame] at hhead'
  obtain ⟨htake, hdrop⟩ := @take_of_continues before after single read
  refine ⟨before.length + 1, _, cut', _, hdev, hcut', hcut'.slow, ?_, ?_, hcut'.slow_single, ?_⟩
  · rw [harr', harr, htake]
  · rw [harr', hdrop]
    exact hsingle
  · rw [tradeOnce_follow hdev hcut'.toStreaming hopen hhead', harr', hfollow,
      follow_eq_inOrder (calm_of_single hsingle), hflat,
      tradeOnce_follow hdev hcut'.slow.toStreaming hopen hhead',
      follow_eq_inOrder (calm_of_single hcut'.slow_single), flatten_arrivals hcut'.slow.toStreaming,
      List.append_assoc]
    exact hfar

/-- **The order of the frames decides, as long as the reads keep step.**  Two cuttings of one stream
that both keep step with the waits have the same outcome.  And nothing less will do: a cutting that
does not keep step needs only to go on one frame at a time from the read that overtakes, with frames
that the device may well send, to end differently from the same frames read one at a time. -/
theorem outcome_of_order_iff_in_step (ep : GbLinkEndpoint) (offered : Pokemon100) :
    (∀ fs cut cut', FromDevice ep fs → Cutting ep fs cut → Cutting ep fs cut' →
      InStep ep offered fs cut → InStep ep offered fs cut' →
      outcome ((withReads ep cut).call (tradeOnce offered)).1 =
        outcome ((withReads ep cut').call (tradeOnce offered)).1) ∧
    (∀ fs cut, FromDevice ep fs → Cutting ep fs cut → (∀ f ∈ fs, f.sequence < 0xFFFFFFFE) →
      ¬ InStep ep offered fs cut →
      ∃ k fs' cut' slow, FromDevice ep fs' ∧ Cutting ep fs' cut' ∧ Cutting ep fs' slow ∧
        (arrivals ep fs' cut').take k = (arrivals ep fs cut).take k ∧
        (∀ read ∈ (arrivals ep fs' cut').drop k, read.length ≤ 1) ∧
        (∀ read ∈ arrivals ep fs' slow, read.length ≤ 1) ∧
        outcome ((withReads ep cut').call (tradeOnce offered)).1 ≠
          outcome ((withReads ep slow).call (tradeOnce offered)).1) := by
  refine ⟨?_, ?_⟩
  · intro fs cut cut' hfs hcut hcut' hstep hstep'
    rw [tradeOnce_eq_of_inStep hfs hcut hcut' hstep hstep']
  · intro fs cut hfs hcut hroom hstep
    rw [InStep, Classical.not_imp, Classical.not_imp] at hstep
    obtain ⟨hopen, hhead, hcalm⟩ := hstep
    exact exists_outcome_ne hfs hcut hopen hhead hroom (by simpa using hcalm)

/-! A trade that goes well, and the same frames with the selection in one read. -/

namespace Sample

/-- A record of zeros, which holds no mail. -/
def mon : Pokemon100 := ⟨List.replicate 100 0, by simp⟩

def endpoint : GbLinkEndpoint where
  transport := { reads := [] }
  offerSlot := 0
  txid := .ofBytes [0, 0, 0, 0, 0, 0, 0x40, 0, 0x80, 0, 0, 0, 0, 0, 0, 1]
  connected := true

def event (messageType : MessageType) (n : Nat) (payload : Bytes) : Frame :=
  .trimmed messageType endpoint.txid n payload

/-- What a device sends that accepts the offer and trades: the seven announcements that the endpoint waits
for. -/
def conversation : List Frame :=
  [event .offerReady 1 (expectedReady 0 mon), event .tradeSessionStarted 2 [],
   event .partnerParty 3 (List.replicate 600 0), event .partnerSelectedSlot 4 [0],
   event .partnerSelectedMon 5 mon.raw, event .tradeCommitted 6 (expectedCommit mon mon),
   event .tradeLinkClosed 7 [0]]

/-- A frame in reads of its own, of 512 bytes at most. -/
def alone (f : Frame) : List Bytes := [f.encode.take 512, f.encode.drop 512]

/-- The conversation, each frame in reads of its own. -/
def oneByOne : List Bytes := conversation.flatMap alone

/-- The selected slot and the selected mon arrive together; the other frames are read as before. -/
def selectionTogether : List Bytes :=
  (conversation.take 3).flatMap alone ++
    [wire Frame.encode ((conversation.drop 3).take 2)] ++ (conversation.drop 5).flatMap alone

/-- Byte by byte: the slowest port there is. -/
def trickle : List Bytes := bytewise (wire Frame.encode conversation)

theorem conversation_fromDevice : FromDevice endpoint conversation := by
  refine ⟨by decide +kernel, ?_⟩
  unfold Increasing
  decide +kernel

theorem conversation_opens : refusal endpoint mon = none := by decide +kernel

theorem conversation_new : ∀ f ∈ conversation.head?, Above endpoint.replay endpoint.txid f := by
  intro f _ n hn
  exact absurd hn (by simp [endpoint])

theorem cutting_of {cut : List Bytes} (h : cut.flatten = wire Frame.encode conversation)
    (hsize : ∀ data ∈ cut, data.length ≤ 512) : Cutting endpoint conversation cut :=
  ⟨⟨h.symm, FrameDecoder.decoder_delimits.short_zero conversation⟩, hsize⟩

theorem flatten_alone (fs : List Frame) : (fs.flatMap alone).flatten = wire Frame.encode fs := by
  induction fs with
  | nil => rfl
  | cons f fs ih =>
      rw [List.flatMap_cons, List.flatten_append, ih, wire_cons]
      simp [alone]

theorem oneByOne_cutting : Cutting endpoint conversation oneByOne :=
  cutting_of (flatten_alone conversation) (by decide +kernel)

theorem selectionTogether_cutting : Cutting endpoint conversation selectionTogether := by
  refine cutting_of ?_ (by decide +kernel)
  simp only [selectionTogether, List.flatten_append, flatten_alone, List.flatten_cons,
    List.flatten_nil, List.append_nil, ← wire_append]
  rfl

theorem trickle_cutting : Cutting endpoint conversation trickle := by
  refine cutting_of (flatten_bytewise _) ?_
  intro data hdata
  obtain ⟨b, -, rfl⟩ := List.mem_map.mp hdata
  simp

theorem conversation_follow {cut : List Bytes} (h : Cutting endpoint conversation cut) :
    ((withReads endpoint cut).call (tradeOnce mon)).1 =
      follow endpoint.offerSlot mon .ready (arrivals endpoint conversation cut) :=
  tradeOnce_follow conversation_fromDevice h.toStreaming conversation_opens conversation_new

/-- **The same frames, two outcomes.** Read one by one the trade is confirmed; when the selected slot and the
selected mon arrive in one read, the mon is dropped with the list that held it, the next wait never sees
it, and the trade times out. -/
theorem selection_lost :
    FromDevice endpoint conversation ∧ Cutting endpoint conversation oneByOne ∧
      Cutting endpoint conversation selectionTogether ∧
      outcome ((withReads endpoint oneByOne).call (tradeOnce mon)).1 =
        .ok ⟨⟨mon, mon, true⟩, 0, true⟩ ∧
      outcome ((withReads endpoint selectionTogether).call (tradeOnce mon)).1 =
        .error .endpointError := by
  refine ⟨conversation_fromDevice, oneByOne_cutting, selectionTogether_cutting, ?_⟩
  rw [conversation_follow oneByOne_cutting, conversation_follow selectionTogether_cutting]
  decide +kernel

theorem oneByOne_inStep : InStep endpoint mon conversation oneByOne := by
  intro _ _
  decide +kernel

theorem trickle_inStep : InStep endpoint mon conversation trickle := by
  intro _ _
  exact calm_of_single (groups_bytewise Frame.encode_ne_nil trickle_cutting.short)

theorem selectionTogether_not_inStep : ¬ InStep endpoint mon conversation selectionTogether := by
  intro h
  have hcalm := h conversation_opens conversation_new
  exact absurd hcalm (by decide +kernel)

/-- Both halves at the sample conversation: two cuttings that keep step, and the one that does not. -/
theorem sample_order_and_step :
    (outcome ((withReads endpoint oneByOne).call (tradeOnce mon)).1 =
      outcome ((withReads endpoint trickle).call (tradeOnce mon)).1) ∧
    ∃ k fs' cut' slow, FromDevice endpoint fs' ∧ Cutting endpoint fs' cut' ∧
      Cutting endpoint fs' slow ∧
      (arrivals endpoint fs' cut').take k =
        (arrivals endpoint conversation selectionTogether).take k ∧
      (∀ read ∈ (arrivals endpoint fs' cut').drop k, read.length ≤ 1) ∧
      (∀ read ∈ arrivals endpoint fs' slow, read.length ≤ 1) ∧
      outcome ((withReads endpoint cut').call (tradeOnce mon)).1 ≠
        outcome ((withReads endpoint slow).call (tradeOnce mon)).1 :=
  ⟨(outcome_of_order_iff_in_step endpoint mon).1 conversation oneByOne trickle
      conversation_fromDevice oneByOne_cutting trickle_cutting oneByOne_inStep trickle_inStep,
    (outcome_of_order_iff_in_step endpoint mon).2 conversation selectionTogether
      conversation_fromDevice selectionTogether_cutting (by decide +kernel)
      selectionTogether_not_inStep⟩

end Sample

end TradeBroker.Gba
