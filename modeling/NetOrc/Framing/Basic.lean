import Mathlib.Data.List.Basic

/-!
This module contains an abstract account of incremental decoding: a decoder carves frames off the
head of an accumulation buffer, and a consumer folds over the carved frames while the buffer is fed
one chunk after another. The main result is that the cut points of the chunks do not matter.
-/

namespace Framing

variable {β φ σ ρ : Type}

inductive Carve (β φ : Type) where
  | more
  | bad
  | frame (f : φ) (rest : List β)

/--
A decoder whose decisions are final: a carved frame, or a refusal, is not changed by bytes that
arrive later, and every carved frame consumes something.
-/
structure Decoder (β φ : Type) where
  carve : List β → Carve β φ
  length_lt : ∀ {b : List β} {f : φ} {r : List β}, carve b = .frame f r → r.length < b.length
  carve_append_of_frame : ∀ {b : List β} {f : φ} {r : List β} (c : List β),
    carve b = .frame f r → carve (b ++ c) = .frame f (r ++ c)
  carve_append_of_bad : ∀ {b : List β} (c : List β), carve b = .bad → carve (b ++ c) = .bad

/--
How draining a buffer ends: the decoder waits for more input, the decoder refuses the buffer, or
the consumer halts.
-/
inductive Drained (β σ ρ : Type) where
  | more (rest : List β) (s : σ)
  | bad (s : σ)
  | halt (x : ρ)

namespace Decoder

variable (D : Decoder β φ) (act : σ → φ → Except ρ σ)

def drain (b : List β) (s : σ) : Drained β σ ρ :=
  match _hcarve : D.carve b with
  | .more => .more b s
  | .bad => .bad s
  | .frame f rest =>
    match act s f with
    | .ok s => drain rest s
    | .error x => .halt x
termination_by b.length
decreasing_by exact D.length_lt _hcarve

variable {D act}

theorem drain_of_more {b : List β} (h : D.carve b = .more) (s : σ) :
    D.drain act b s = .more b s := by
  unfold drain
  split
  . rfl
  . next hb => rw [h] at hb; contradiction
  . next hb => rw [h] at hb; contradiction

theorem drain_of_bad {b : List β} (h : D.carve b = .bad) (s : σ) :
    D.drain act b s = .bad s := by
  unfold drain
  split
  . next hb => rw [h] at hb; contradiction
  . rfl
  . next hb => rw [h] at hb; contradiction

theorem drain_of_frame {b : List β} {f : φ} {r : List β} (h : D.carve b = .frame f r) (s : σ) :
    D.drain act b s
      =
    match act s f with
    | .ok s => D.drain act r s
    | .error x => .halt x := by
  rw [drain]
  split
  . next hb => rw [h] at hb; contradiction
  . next hb => rw [h] at hb; contradiction
  . next hb =>
    rw [h] at hb
    injection hb with hf hr
    subst hf hr
    rfl

theorem carve_induction {motive : List β → Prop}
    (more : ∀ b, D.carve b = .more → motive b)
    (bad : ∀ b, D.carve b = .bad → motive b)
    (frame : ∀ b f r, D.carve b = .frame f r → motive r → motive b)
    (b : List β) : motive b := by
  generalize hn : b.length = n
  induction n using Nat.strongRecOn generalizing b with
  | ind n ih =>
    match h : D.carve b with
    | .more => exact more b h
    | .bad => exact bad b h
    | .frame f r =>
      have hlt := D.length_lt h
      exact frame b f r h (ih r.length (by omega) r rfl)

end Decoder

def Drained.resume (D : Decoder β φ) (act : σ → φ → Except ρ σ) (d : Drained β σ ρ) (c : List β) :
    Drained β σ ρ :=
  match d with
  | .more rest s => D.drain act (rest ++ c) s
  | .bad s => .bad s
  | .halt x => .halt x

namespace Decoder

variable {D : Decoder β φ} {act : σ → φ → Except ρ σ}

theorem drain_append (b c : List β) (s : σ) :
    D.drain act (b ++ c) s = (D.drain act b s).resume D act c := by
  induction b using D.carve_induction generalizing s with
  | more b h => rw [drain_of_more h, Drained.resume]
  | bad b h => rw [drain_of_bad h, drain_of_bad (D.carve_append_of_bad c h), Drained.resume]
  | frame b f r h ih =>
    rw [drain_of_frame h, drain_of_frame (D.carve_append_of_frame c h)]
    cases act s f with
    | ok s => exact ih s
    | error x => rfl

theorem resume_append (d : Drained β σ ρ) (b c : List β) :
    d.resume D act (b ++ c) = (d.resume D act b).resume D act c := by
  cases d with
  | more rest s => simp only [Drained.resume, ← List.append_assoc, drain_append (rest ++ b) c]
  | bad s => rfl
  | halt x => rfl

theorem foldl_resume_bad (s : σ) (cs : List (List β)) :
    cs.foldl (Drained.resume D act) (.bad s) = .bad s := by
  induction cs with
  | nil => rfl
  | cons c cs ih => exact ih

theorem foldl_resume_halt (x : ρ) (cs : List (List β)) :
    cs.foldl (Drained.resume D act) (.halt x) = .halt x := by
  induction cs with
  | nil => rfl
  | cons c cs ih => exact ih

theorem foldl_resume (d : Drained β σ ρ) (c : List β) (cs : List (List β)) :
    (c :: cs).foldl (Drained.resume D act) d = d.resume D act (c :: cs).flatten := by
  induction cs generalizing d c with
  | nil => simp
  | cons c' cs ih =>
    rw [List.foldl_cons, ih, List.flatten_cons (l := c), resume_append]

def split (D : Decoder β φ) (b : List β) : List φ × Option (List β) :=
  match _hcarve : D.carve b with
  | .more => ([], some b)
  | .bad => ([], none)
  | .frame f rest =>
    let tail := D.split rest
    (f :: tail.1, tail.2)
termination_by b.length
decreasing_by exact D.length_lt _hcarve

theorem split_of_more {b : List β} (h : D.carve b = .more) : D.split b = ([], some b) := by
  unfold split
  split
  . rfl
  . next hb => rw [h] at hb; contradiction
  . next hb => rw [h] at hb; contradiction

theorem split_of_bad {b : List β} (h : D.carve b = .bad) : D.split b = ([], none) := by
  unfold split
  split
  . next hb => rw [h] at hb; contradiction
  . rfl
  . next hb => rw [h] at hb; contradiction

theorem split_of_frame {b : List β} {f : φ} {r : List β} (h : D.carve b = .frame f r) :
    D.split b = (f :: (D.split r).1, (D.split r).2) := by
  rw [split]
  split
  . next hb => rw [h] at hb; contradiction
  . next hb => rw [h] at hb; contradiction
  . next hb =>
    rw [h] at hb
    injection hb with hf hr
    subst hf hr
    rfl

theorem drain_eq_foldlM (b : List β) (s : σ) :
    D.drain act b s
      =
    match (D.split b).1.foldlM act s, (D.split b).2 with
    | .ok s, some rest => .more rest s
    | .ok s, none => .bad s
    | .error x, _ => .halt x := by
  induction b using D.carve_induction generalizing s with
  | more b h => rw [drain_of_more h, split_of_more h]; rfl
  | bad b h => rw [drain_of_bad h, split_of_bad h]; rfl
  | frame b f r h ih =>
    rw [drain_of_frame h, split_of_frame h, List.foldlM_cons]
    cases hact : act s f with
    | ok s' => exact ih s'
    | error x => rfl

inductive Carves (D : Decoder β φ) (b : List β) : List φ → List β → Prop where
  | nil : Carves D b [] b
  | snoc {fs : List φ} {r : List β} {f : φ} {r' : List β} (h : Carves D b fs r)
    (hcarve : D.carve r = .frame f r') : Carves D b (fs ++ [f]) r'

theorem Carves.append {b r : List β} {fs : List φ} (h : D.Carves b fs r) (c : List β) :
    D.Carves (b ++ c) fs (r ++ c) := by
  induction h with
  | nil => exact .nil
  | snoc _ hcarve ih => exact .snoc ih (D.carve_append_of_frame c hcarve)

theorem Carves.split {b r : List β} {fs : List φ} (h : D.Carves b fs r) :
    D.split b = (fs ++ (D.split r).1, (D.split r).2) := by
  induction h with
  | nil => rfl
  | snoc _ hcarve ih =>
    rw [split_of_frame hcarve] at ih
    rw [ih, List.append_assoc]
    rfl

end Decoder

end Framing
