/-
# TradeBroker.Gba.RoundTrip — the frame codec of the host, over the whole format.

What `encode` writes, `feed` reads back: any frames, in any cutting of the bytes, with any noise between
them that does not hold the magic.  Three facts carry it.  The magic does not overlap itself, so an
occurrence that starts in the noise would lie in the noise.  The three bytes that `feed` keeps of a
buffer without a magic are enough for one that is cut.  And a frame leaves the buffer as a whole, so a
magic in its payload is never looked at.

⚠ The noise must be free of the magic: a stray magic makes `feed` take the 28 bytes behind it for a header.

What `Lib.Scan` calls `Resyncs` is proved of one pass here (`decoder_resyncs`), and the library makes of
it what any number of calls do.  That the payload may hold the magic needs no care beyond that: the sample
frame has the magic as its payload, and beginnings of a magic for its noise.
-/
import TradeBroker.Gba.Protocol

namespace TradeBroker.Gba

open Lib

namespace FrameDecoder

/-- The chunks in order: what each call of `feed` returned or raised; a caller that goes on after an
exception. -/
def feedAll : List Bytes → FrameDecoder → List (Except Exc (List Frame)) × FrameDecoder
  | [], d => ([], d)
  | data :: chunks, d =>
      let r := d.feed data
      let rs := feedAll chunks r.2
      (r.1 :: rs.1, rs.2)

/-! ## §1 — one pass over noise. -/

/-- The magic does not overlap itself: no proper beginning of it is also its end. -/
theorem magic_unbordered : Unbordered magic := by decide

/-- Of bytes without the magic all but the last three are dropped, and those are kept for the next call. -/
theorem turn_no_magic {p : Bytes} (h : ¬ magic <:+: p) :
    ∃ dropped kept, p = dropped ++ kept ∧ dropped.length = p.length - 3 ∧ turn p = .wait kept := by
  have hcut : p.length - min p.length (magic.length - 1) = p.length - 3 := by
    show p.length - min p.length 3 = p.length - 3
    omega
  refine ⟨p.take (p.length - 3), p.drop (p.length - 3), (List.take_append_drop _ p).symm, ?_, ?_⟩
  · rw [List.length_take]
    omega
  · rw [turn, find_eq_none_iff.mpr h, hcut]

/-- Noise in front of the magic is passed over in the same pass. -/
theorem turn_noise {noise : Bytes} (h : ¬ magic <:+: noise) (bs : Bytes) :
    turn (noise ++ (magic ++ bs)) = turn (magic ++ bs) := by
  rw [turn_magic, turn, magic_unbordered.find_append (by decide) h]
  show turnAt ((noise ++ (magic ++ bs)).drop noise.length) = _
  rw [List.drop_left]

/-- **The decoder finds its way through noise** that is free of the magic, cut anywhere, also within a magic. -/
theorem decoder_resyncs : Resyncs turn Frame.encode id fun noise => ¬ magic <:+: noise := by
  apply decoder_delimits.resyncs magic_unbordered (by decide) Frame.encode_eq_magic
  · intro noise bs hn
    exact turn_noise hn bs
  · intro p hn
    obtain ⟨dropped, kept, hcut, hlen, hturn⟩ := turn_no_magic hn
    refine ⟨dropped, kept, hcut, hturn, ?_⟩
    intro r s hr hs hsuffix
    -- a beginning of the magic is three bytes at most
    have hspos := List.length_pos_of_ne_nil hs
    have hfour := congrArg List.length hr
    have hle := hsuffix.length_le
    rw [hcut] at hlen hle
    rw [List.length_append] at hlen hle hfour
    have hmlen : magic.length = 4 := rfl
    omega

/-! ## §2 — the whole stream. -/

/-- The calls of `feed` on a stream whose first part is in the buffer already: the induction over the chunks. -/
theorem feedAll_noisy {items : List (Bytes × Frame)} {last : Bytes} {chunks : List Bytes}
    {buf : Bytes} (hq : Quiet (fun noise => ¬ magic <:+: noise) items last)
    (hcut : noisy Frame.encode items last = buf ++ chunks.flatten)
    (hend : chunks = [] → items = []) :
    ∃ lists : List (List Frame), (feedAll chunks ⟨buf⟩).1 = lists.map .ok ∧ lists.flatten = items.map Prod.snd := by
  induction chunks generalizing items last buf with
  | nil =>
      rw [hend rfl]
      exact ⟨[], rfl, rfl⟩
  | cons data chunks ih =>
      have hsplit : noisy Frame.encode items last = (buf ++ data) ++ chunks.flatten := by
        rw [hcut, List.flatten_cons, List.append_assoc]
      obtain ⟨found, left, last', rest, hitems, hscan, hquiet, hleft, hdone⟩ :=
        scan_noisy decoder_resyncs hq hsplit (Nat.lt_succ_self (buf ++ data).length)
      have hfeed : feed ⟨buf⟩ data = (.ok found, ⟨rest⟩) := by
        rw [List.map_id] at hscan
        simp only [feed, hscan]
      obtain ⟨lists, hlists, hflat⟩ := ih hquiet hleft (by
        rintro rfl
        exact hdone rfl)
      refine ⟨found :: lists, ?_, ?_⟩
      · simp only [feedAll, hfeed, hlists, List.map_cons]
      · rw [List.flatten_cons, hflat, hitems]

/-- A stream of frames without noise, cut in any way, is read back frame by frame. -/
theorem feedAll_wire {fs : List Frame} {chunks : List Bytes}
    (hcut : chunks.flatten = wire Frame.encode fs) :
    ∃ lists : List (List Frame), (feedAll chunks {}).1 = lists.map .ok ∧ lists.flatten = fs := by
  have hquiet : Quiet (fun noise => ¬ magic <:+: noise) (fs.map fun f => ([], f)) [] := by
    refine ⟨?_, by decide⟩
    intro item hitem
    obtain ⟨f, -, rfl⟩ := List.mem_map.mp hitem
    show ¬ magic <:+: []
    decide
  have hend : chunks = [] → (fs.map fun f => (([] : Bytes), f)) = [] := by
    rintro rfl
    cases fs with
    | nil => rfl
    | cons f fs => simp [Frame.encode_ne_nil] at hcut
  have hstream : noisy Frame.encode (fs.map fun f => ([], f)) [] = [] ++ chunks.flatten :=
    (noisy_eq_wire Frame.encode fs).trans hcut.symm
  obtain ⟨lists, hlists, hflat⟩ := feedAll_noisy hquiet hstream hend
  refine ⟨lists, hlists, ?_⟩
  rw [hflat, List.map_map]
  exact List.map_id fs

end FrameDecoder

/-- **The codec round trip.**  Any frames, with noise around them that is free of the magic, cut in any
way: no call of `feed` raises, and together they return exactly the frames. -/
theorem frames_survive_noise {items : List (Bytes × Frame)} {last : Bytes} {chunks : List Bytes}
    (hquiet : ∀ noise ∈ last :: items.map Prod.fst, ¬ magic <:+: noise)
    (hcut : chunks.flatten = noisy Frame.encode items last) :
    ∃ lists : List (List Frame), (FrameDecoder.feedAll chunks {}).1 = lists.map .ok ∧
      lists.flatten = items.map Prod.snd := by
  refine FrameDecoder.feedAll_noisy ⟨?_, hquiet last (by simp)⟩ hcut.symm ?_
  · intro item hitem
    exact hquiet item.1 (List.mem_cons_of_mem _ (List.mem_map_of_mem hitem))
  · rintro rfl
    cases items with
    | nil => rfl
    | cons item items =>
        have hnil : [] = item.1 ++ (item.2.encode ++ noisy Frame.encode items last) := hcut
        simp [Frame.encode_ne_nil] at hnil

/-- A frame whose payload is the magic, between two beginnings of a magic when it is fed byte by byte. -/
def magicFrame : Frame := .trimmed .hello .nil 7 magic

theorem frames_survive_noise_bytewise :
    ∃ lists : List (List Frame), (FrameDecoder.feedAll
        (bytewise (noisy Frame.encode [(magic.take 3, magicFrame)] (magic.take 3))) {}).1 =
          lists.map .ok ∧ lists.flatten = [magicFrame] :=
  frames_survive_noise (by decide) (flatten_bytewise _)

end TradeBroker.Gba
