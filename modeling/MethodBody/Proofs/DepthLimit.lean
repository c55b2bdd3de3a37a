import MethodBody.Proofs.Acceptance
import MethodBody.Proofs.Parts
import MethodBody.Proofs.Reachable
import MethodBody.Proofs.Stream

/-!
# What the depth limit decides

A limit only ever cuts lowering short. Where it is not reached, nothing of it is seen, and where it
is, the sink was given the beginning of what it is given under a higher limit. `Transcript.Cut`
relates what lowering does under the two limits, and is passed through each step on the way.
-/

namespace MethodBody

namespace Transcript

/-- The first transcript is the second, or it was stopped by the limit and hands over the beginning
of what the second hands over. -/
def Cut (t t' : Transcript) : Prop :=
  t' = t ∨ (∃ depth limit, t.error? = some (.nestingTooDeep depth limit)) ∧
    t.instructions <+: t'.instructions

/-- A transcript that is not cut short. -/
theorem Cut.refl (t : Transcript) : t.Cut t := .inl rfl

/-- What is done first is handed over first, whether it is stopped or not. -/
theorem instructions_prefix_append (a b : Transcript) :
    a.instructions <+: (a ++ b).instructions := by
  cases ha : a.error? with
  | none =>
    rw [instructions_append ha]
    exact List.prefix_append _ _
  | some error => simp only [append_of_error?_eq_some ha, List.prefix_rfl]

/-- Transcripts in turn are cut short where the first one of them is. -/
theorem Cut.append {a a' b b' : Transcript} (ha : a.Cut a') (hb : b.Cut b') :
    (a ++ b).Cut (a' ++ b') := by
  rcases ha with rfl | ⟨⟨depth, limit, hstop⟩, hprefix⟩
  · cases herror : a'.error? with
    | some error =>
      rw [append_of_error?_eq_some herror, append_of_error?_eq_some herror]
      exact .refl a'
    | none =>
      rcases hb with rfl | ⟨⟨depth, limit, hstop⟩, hprefix⟩
      · exact .refl _
      · refine .inr ⟨⟨depth, limit, by simp [herror, hstop]⟩, ?_⟩
        rw [instructions_append herror, instructions_append herror]
        exact (List.prefix_append_right_inj _).mpr hprefix
  · rw [append_of_error?_eq_some hstop]
    exact .inr ⟨⟨depth, limit, hstop⟩, hprefix.trans (instructions_prefix_append a' b')⟩

variable {limit limit' : Nat}

/-- A node is refused under the lower limit only, or it is treated alike. -/
theorem cut_enter (hle : limit ≤ limit') (kind : Kind) (depth : Nat) :
    (enter limit kind depth).Cut (enter limit' kind depth) := by
  by_cases hdeep : limit < depth
  · refine .inr ⟨⟨depth, limit, by simp [hdeep]⟩, ?_⟩
    rw [instructions_enter]
    exact List.nil_prefix
  · have hdeep' : ¬ limit' < depth := by omega
    left
    rw [enter, enter, if_neg hdeep, if_neg hdeep']

end Transcript

namespace Expr

open Transcript

variable {limit limit' : Nat}

/-- Under a lower limit lowering does the same or is cut short. -/
theorem cut_transcript (e : Expr) (hle : limit ≤ limit') (depth : Nat) :
    (e.transcript limit depth).Cut (e.transcript limit' depth) := by
  have hrefl (t : Transcript) : t.Cut t := .refl t
  -- The limit is looked at where an occurrence is come to, and nowhere else.
  exact transcript_induction (Q := fun _ t => (t limit).Cut (t limit')) (hrefl _) .append
    (fun o _ => (cut_enter hle o.node.kind o.depth).append (hrefl _)) (fun _ _ _ => hrefl _)
    (fun _ => hrefl _) (fun _ => hrefl _) (fun _ _ => hrefl _) e depth

/-- Where the limit was not reached, a higher one changes nothing. -/
theorem transcript_eq_of_not_tooDeep {e : Expr} (hle : limit ≤ limit')
    (hdeep : ∀ depth max, (e.transcript limit 0).error? ≠ some (.nestingTooDeep depth max)) :
    e.transcript limit' 0 = e.transcript limit 0 := by
  rcases e.cut_transcript hle 0 with heq | ⟨⟨depth, max, hstop⟩, -⟩
  · exact heq
  · exact absurd hstop (hdeep depth max)

/-- A limit that no occurrence lies beyond is not reached. -/
theorem transcript_not_tooDeep {e : Expr} {limit : Nat}
    (hall : ∀ o ∈ e.occurrences, o.depth ≤ limit) (depth max : Nat) :
    (e.transcript limit 0).error? ≠ some (.nestingTooDeep depth max) := by
  rw [e.error?_transcript (Nat.zero_le limit), firstOffence?]
  intro hfirst
  obtain ⟨o, ho, hoffence⟩ := List.exists_of_findSome?_eq_some hfirst
  have hdeep := (Occurrence.tooDeep_of_offence? hoffence).1
  have hdepth := hall o ho
  omega

/-- There is a limit that no occurrence lies beyond. -/
theorem exists_depth_le (e : Expr) : ∃ enough, ∀ o ∈ e.occurrences, o.depth ≤ enough := by
  refine ⟨(e.occurrences.map Occurrence.depth).max?.getD 0, fun o ho => ?_⟩
  exact List.le_max?_getD_of_mem (List.mem_map_of_mem ho)

/-- The depth limit decides how far lowering goes and nothing else. If the limit is not reached,
lowering ends under every higher limit as it does under this one, with the same error or none, and
leaves every sink in the same state. Whether it is reached or not, the sink is given the beginning
of what it is given under a higher limit. For every expression there is a limit from which on all
limits are alike. -/
theorem lowerInto_limit_mono (e : Expr) (limit limit' : Nat) (hle : limit ≤ limit') :
    (∀ (σ : Type) (sink : Sink σ) (start : σ),
      (∀ depth max, (e.lowerInto sink start limit).error? ≠ some (.nestingTooDeep depth max)) →
        e.lowerInto sink start limit' = e.lowerInto sink start limit) ∧
    e.stream limit <+: e.stream limit' ∧
    ∃ enough, ∀ high, enough ≤ high → ∀ (σ : Type) (sink : Sink σ) (start : σ),
      e.lowerInto sink start high = e.lowerInto sink start enough := by
  refine ⟨fun σ sink start hdeep => ?_, ?_, ?_⟩
  · simp only [lowerInto_eq] at hdeep ⊢
    rw [transcript_eq_of_not_tooDeep hle hdeep]
  · rw [e.stream_eq, e.stream_eq]
    rcases e.cut_transcript hle 0 with heq | ⟨-, hprefix⟩
    · simp only [heq, List.prefix_rfl]
    · exact hprefix
  · obtain ⟨enough, hall⟩ := e.exists_depth_le
    refine ⟨enough, fun high hhigh σ sink start => ?_⟩
    have heq := transcript_eq_of_not_tooDeep hhigh (transcript_not_tooDeep hall)
    rw [lowerInto_eq, lowerInto_eq, heq]

/-- The sample body reaches the limit three, at the element of its array literal, but not the limit
four. -/
theorem lowerInto_limit_mono_body :
    let e := Sample.body "xs"
    (3 ≤ 4 ∧ (e.lowerInto Code.sink Code.empty 3).error? = some (.nestingTooDeep 4 3) ∧
      e.stream 3 <+: e.stream 4) ∧
    4 ≤ 9 ∧ (e.lowerInto Code.sink Code.empty 4).error? = none ∧
      e.lowerInto Code.sink Code.empty 9 = e.lowerInto Code.sink Code.empty 4 := by
  have hdeep : ((Sample.body "xs").lowerInto Code.sink Code.empty 3).error? =
      some (.nestingTooDeep 4 3) := by decide
  have hok : ((Sample.body "xs").lowerInto Code.sink Code.empty 4).error? = none := by decide
  obtain ⟨-, hprefix, -⟩ := lowerInto_limit_mono (Sample.body "xs") 3 4 (by decide)
  obtain ⟨hsame, -, -⟩ := lowerInto_limit_mono (Sample.body "xs") 4 9 (by decide)
  refine ⟨⟨by decide, hdeep, hprefix⟩, by decide, hok, hsame Code Code.sink Code.empty ?_⟩
  simp [hok]

end Expr

end MethodBody
