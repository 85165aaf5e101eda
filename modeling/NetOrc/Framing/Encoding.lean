import NetOrc.Framing.Basic

/-!
This module relates a decoder to an encoder of its frames: a stream of encoded frames splits back
into exactly these frames.
-/

namespace Framing

variable {β φ : Type}

/--
An encoder for the frames of `D` that satisfy `valid`: an encoded frame is carved back from whatever
follows it, and the decoder waits on each proper prefix of it.
-/
structure Encoding (D : Decoder β φ) where
  valid : φ → Prop
  enc : φ → List β
  carve_enc : ∀ {f : φ} (r : List β), valid f → D.carve (enc f ++ r) = .frame f r
  carve_take : ∀ {f : φ} {k : Nat}, valid f → k < (enc f).length → D.carve ((enc f).take k) = .more

namespace Encoding

variable {D : Decoder β φ} (E : Encoding D)

def stream (fs : List φ) : List β := fs.flatMap E.enc

@[simp]
theorem stream_nil : E.stream [] = [] := rfl

@[simp]
theorem stream_cons (f : φ) (fs : List φ) : E.stream (f :: fs) = E.enc f ++ E.stream fs := rfl

@[simp]
theorem stream_append (fs gs : List φ) : E.stream (fs ++ gs) = E.stream fs ++ E.stream gs :=
  List.flatMap_append

variable {E}

theorem split_stream_append {fs : List φ} (hvalid : ∀ f ∈ fs, E.valid f) (r : List β) :
    D.split (E.stream fs ++ r) = (fs ++ (D.split r).1, (D.split r).2) := by
  induction fs with
  | nil => simp
  | cons f fs ih =>
    have hf : E.valid f := hvalid f (by simp)
    have hfs : ∀ g ∈ fs, E.valid g := fun g hg => hvalid g (by simp [hg])
    rw [stream_cons, List.append_assoc, Decoder.split_of_frame (E.carve_enc _ hf), ih hfs]
    rfl

theorem split_stream_append_take {fs : List φ} (hvalid : ∀ f ∈ fs, E.valid f) {f : φ}
    (hf : E.valid f) {k : Nat} (hk : k < (E.enc f).length) :
    D.split (E.stream fs ++ (E.enc f).take k) = (fs, some ((E.enc f).take k)) := by
  rw [split_stream_append hvalid, Decoder.split_of_more (E.carve_take hf hk)]
  simp

theorem split_stream {fs : List φ} (hvalid : ∀ f ∈ fs, E.valid f) (hnil : D.carve [] = .more) :
    D.split (E.stream fs) = (fs, some []) := by
  have h := split_stream_append (E := E) hvalid []
  rw [Decoder.split_of_more hnil] at h
  simpa using h

theorem enc_append_inj {f g : φ} (hf : E.valid f) (hg : E.valid g) {r s : List β}
    (h : E.enc f ++ r = E.enc g ++ s) : f = g ∧ r = s := by
  have hcarve := E.carve_enc r hf
  rw [h, E.carve_enc s hg] at hcarve
  injection hcarve with hfg hrs
  exact ⟨hfg.symm, hrs.symm⟩

theorem not_enc_prefix_of_bad {b : List β} (hbad : D.carve b = .bad) (x : List β) {f : φ}
    (hf : E.valid f) : ¬E.enc f <+: b ++ x := by
  rintro ⟨r, hr⟩
  have hcarve := E.carve_enc r hf
  rw [hr, D.carve_append_of_bad x hbad] at hcarve
  contradiction

end Encoding

end Framing
