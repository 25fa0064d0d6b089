/-!
# Questions in a row

A state that answers a question may be another state afterwards. What two states answer to the same
questions in a row is compared by a relation between them: if related states give the same answer and
stay related, they answer alike for good (`answers_eq`).
-/

namespace VisualEncoding

variable {σ τ β γ : Type}

/-- The answers to questions that are put one after the other, each to what the one before has left. -/
def answers (ask : σ → β → γ × σ) : σ → List β → List γ
  | _, [] => []
  | s, b :: bs => (ask s b).1 :: answers ask (ask s b).2 bs

/-- **Related states answer alike.** `Allowed` is what may be asked. The induction is on the questions, for
any two related states. -/
theorem answers_eq {ask : σ → β → γ × σ} {ask' : τ → β → γ × τ} {Related : σ → τ → Prop}
    {Allowed : β → Prop}
    (hstep : ∀ s t b, Allowed b → Related s t →
      (ask s b).1 = (ask' t b).1 ∧ Related (ask s b).2 (ask' t b).2)
    {s : σ} {t : τ} {bs : List β} (hbs : ∀ b ∈ bs, Allowed b) (h : Related s t) :
    answers ask s bs = answers ask' t bs := by
  induction bs generalizing s t with
  | nil => rfl
  | cons b bs ih =>
    obtain ⟨hanswer, hrelated⟩ := hstep s t b (hbs b (List.mem_cons_self ..)) h
    have hrest := ih (fun b' hb' => hbs b' (List.mem_cons_of_mem b hb')) hrelated
    unfold answers
    rw [hanswer, hrest]

end VisualEncoding
