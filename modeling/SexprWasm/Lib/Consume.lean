import SexprWasm.Lib.Emit

/-!
# Computations that consume input

A decoder is an `Emit` computation whose state has a view: the input that
is still to be read. `Takes m s bs es a s'` says that from `s`, if `bs`
is next, `m` consumes exactly `bs`, hands out `es` and returns `a` in
`s'`, whatever follows `bs`. The rules are those of a decoder that reads
field by field, so the proof that it takes an encoding follows both
texts.

`tag` is the part of an event that is compared; a decoder may hand out
more with it, such as a position.
-/

namespace SexprWasm

namespace Emit

variable {ε φ σ α β γ η ω : Type} (view : σ → List ω) (tag : ε → η)

def Takes (m : Emit ε φ σ α) (s : σ) (bs : List ω) (es : List η) (a : α) (s' : σ) : Prop :=
  ∀ rest, view s = bs ++ rest →
    view s' = rest ∧ ∃ tr, m s = (tr, .ok (a, s')) ∧ tr.map tag = es

/-- The events of a loop over `xs` that starts at `i`. -/
def eventsFrom (events : Nat → γ → List η) : Nat → List γ → List η
  | _, [] => []
  | i, x :: xs => events i x ++ eventsFrom events (i + 1) xs

namespace Takes

variable {view : σ → List ω} {tag : ε → η} {m : Emit ε φ σ α} {f : α → Emit ε φ σ β}
  {s s' s'' : σ} {bs bs' : List ω} {es es' : List η} {a : α} {b : β}

theorem of_eq (h : Takes view tag m s bs es a s') (hbs : bs = bs') (hes : es = es')
    (hs : s' = s'') : Takes view tag m s bs' es' a s'' :=
  hbs ▸ hes ▸ hs ▸ h

theorem pure (a : α) (s : σ) : Takes view tag (Emit.pure a : Emit ε φ σ α) s [] [] a s :=
  fun _ h => ⟨h, [], rfl, rfl⟩

theorem bind (hm : Takes view tag m s bs es a s') (hf : Takes view tag (f a) s' bs' es' b s'') :
    Takes view tag (m.bind f) s (bs ++ bs') (es ++ es') b s'' := by
  intro rest h
  rw [List.append_assoc] at h
  obtain ⟨h', tr, hrun, rfl⟩ := hm _ h
  obtain ⟨h'', tr', hrun', rfl⟩ := hf _ h'
  exact ⟨h'', tr ++ tr', by rw [bind_ok hrun, hrun'], List.map_append⟩

/-- A field that is read without an event. -/
theorem field (hm : Takes view tag m s bs [] a s') (hf : Takes view tag (f a) s' bs' es b s'') :
    Takes view tag (m >>= f) s (bs ++ bs') es b s'' :=
  hm.bind hf

/-- A step that reads nothing and hands out nothing. -/
theorem skip (hm : Takes view tag m s [] [] a s') (hf : Takes view tag (f a) s' bs es b s'') :
    Takes view tag (m >>= f) s bs es b s'' :=
  hm.bind hf

/-- The last field is read, and what is left reads nothing. -/
theorem last (hm : Takes view tag m s bs [] a s') (hf : Takes view tag (f a) s' [] es b s'') :
    Takes view tag (m >>= f) s bs es b s'' :=
  (hm.bind hf).of_eq (List.append_nil _) rfl rfl

/-- A step that hands out `e` and reads nothing. -/
theorem event {e : η} (hm : Takes view tag m s [] [e] a s')
    (hf : Takes view tag (f a) s' bs es b s'') :
    Takes view tag (m >>= f) s bs (e :: es) b s'' :=
  hm.bind hf

theorem get (s : σ) : Takes view tag (Emit.get : Emit ε φ σ σ) s [] [] s s :=
  fun _ h => ⟨h, [], rfl, rfl⟩

theorem modify {g : σ → σ} (hg : view (g s) = view s) :
    Takes view tag (Emit.modify g : Emit ε φ σ Unit) s [] [] () (g s) :=
  fun _ h => ⟨hg.trans h, [], rfl, rfl⟩

theorem check {c : Bool} (e : φ) (h : c = true) (s : σ) :
    Takes view tag (Emit.check c e : Emit ε φ σ Unit) s [] [] () s := by
  rw [Emit.check, if_pos h]
  exact pure () s

/-- The loop rule: entry `x` takes `encode x` and leads from `s` to `next x s`, as long as `P` holds
before each entry. -/
theorem forFrom {body : Nat → Emit ε φ σ Unit} {encode : γ → List ω}
    {events : Nat → γ → List η} {next : γ → σ → σ} {P : σ → Prop} :
    ∀ {xs : List γ} (i : Nat) {s : σ}, P s →
      (∀ i s x, x ∈ xs → P s → Takes view tag (body i) s (encode x) (events i x) () (next x s) ∧
        P (next x s)) →
      Takes view tag (Emit.forFrom body i xs.length) s (xs.flatMap encode) (eventsFrom events i xs)
        () (xs.foldl (fun s x => next x s) s)
  | [], i, s, _, _ => pure () s
  | x :: xs, i, s, hs, hbody => by
      obtain ⟨hx, hnext⟩ := hbody i s x List.mem_cons_self hs
      rw [List.flatMap_cons]
      exact hx.bind
        (forFrom (i + 1) hnext fun i s y hy => hbody i s y (List.mem_cons_of_mem _ hy))

/-- `n` runs of a decoder without events. -/
theorem collect {m : Emit ε φ σ α} {encode : α → List ω} {next : α → σ → σ} :
    ∀ {xs : List α} {s : σ},
      (∀ s, ∀ x ∈ xs, Takes view tag m s (encode x) [] x (next x s)) →
      Takes view tag (Emit.collect m xs.length) s (xs.flatMap encode) [] xs
        (xs.foldl (fun s x => next x s) s)
  | [], s, _ => pure [] s
  | x :: xs, s, hm => by
      rw [List.flatMap_cons]
      have hxs : Takes view tag (Emit.collect m xs.length) (next x s) (xs.flatMap encode) [] xs _ :=
        collect fun s y hy => hm s y (List.mem_cons_of_mem _ hy)
      exact (hm s x List.mem_cons_self).bind ((hxs.bind (pure (x :: xs) _)).of_eq
        (List.append_nil _) rfl rfl)

end Takes

end Emit

end SexprWasm
