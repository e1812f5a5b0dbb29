import Emblib.Library.Program

/-! Two programs in lock step: they make the same requests, whatever is replied, and end in related
values. A pair of programs is judged request by request, as a single program is. -/
namespace Emblib.Programs

section Lockstep
variable {E A B C D S S' : Type} {R : E → Type} {gives : (effect : E) → R effect → Prop}
  {related : A → B → Prop} {program : Program E R A} {other : Program E R B}

/-- The programs make the same requests as long as they get replies that are given, and end in
related values. -/
inductive Lockstep (gives : (effect : E) → R effect → Prop) (related : A → B → Prop) :
    Program E R A → Program E R B → Prop where
  | pure (ends : related value final) : Lockstep gives related (.pure value) (.pure final)
  | request (rest : ∀ reply, gives effect reply → Lockstep gives related (next reply) (after reply)) :
      Lockstep gives related (.request effect next) (.request effect after)

theorem lockstep_mono {weaker : A → B → Prop} (lockstep : Lockstep gives related program other)
    (imp : ∀ value final, related value final → weaker value final) :
    Lockstep gives weaker program other := by
  induction lockstep with
  | pure ends => exact .pure (imp _ _ ends)
  | request _ ih => exact .request ih

/-- Sequencing: related values lead to programs in lock step. -/
theorem lockstep_bind {next : A → Program E R C} {after : B → Program E R D} {post : C → D → Prop}
    (first : Lockstep gives related program other)
    (rest : ∀ value final, related value final → Lockstep gives post (next value) (after final)) :
    Lockstep gives post (program >>= next) (other >>= after) := by
  induction first with
  | pure ends => exact rest _ _ ends
  | request _ ih => exact .request ih

/-- A request in both programs is replied to alike. -/
theorem lockstep_perform (effect : E) :
    Lockstep gives (fun reply same => same = reply ∧ gives effect reply)
      (Program.perform effect : Program E R (R effect)) (Program.perform effect) :=
  .request fun _ given => .pure ⟨rfl, given⟩

theorem lockstep_refl (program : Program E R A) : Lockstep gives Eq program program := by
  induction program with
  | pure value => exact .pure rfl
  | request effect next ih => exact .request fun reply _ => ih reply

/-- Two handlers that agree on the allowed requests, from states that are alike to states that are
alike, get the same requests and lead to related values. -/
theorem lockstep_run {handler : (effect : E) → S → R effect × S}
    {handler' : (effect : E) → S' → R effect × S'} {allowed : E → Prop}
    (lockstep : Lockstep gives related program other) (issues : program.Issues allowed)
    (alike : S → S' → Prop)
    (agree : ∀ effect, allowed effect → ∀ s t, alike s t →
      (handler effect s).1 = (handler' effect t).1 ∧ gives effect (handler effect s).1 ∧
        alike (handler effect s).2 (handler' effect t).2)
    {s : S} {t : S'} (start : alike s t) :
    related (run handler program s).1 (run handler' other t).1 ∧
      requests handler program s = requests handler' other t ∧
      alike (run handler program s).2 (run handler' other t).2 := by
  induction lockstep generalizing s t with
  | pure ends => exact ⟨ends, rfl, start⟩
  | request rest ih =>
    obtain ⟨same, given, after⟩ := agree _ issues.1 s t start
    obtain ⟨ends, asked, final⟩ := ih _ given (issues.2 _) after
    simp only [run_request, requests, ← same]
    exact ⟨ends, congrArg (_ :: ·) asked, final⟩

end Lockstep
end Emblib.Programs
