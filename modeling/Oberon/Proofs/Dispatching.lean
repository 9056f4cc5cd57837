import Mathlib.Tactic.Lemma
import Oberon.Universe.Dispatch

/-!
# Oberon.Proofs.Dispatching

Which signature a call of a predefined procedure uses. A search stops at the first cast-style
signature; without one it keeps the best score so far and whether another signature has it too. At
its end that is the signature whose score no other one reaches, if there is such a signature.
-/

namespace Oberon

open List
namespace Dispatch

def isCast (s : Store) (t : Ty) : Bool := (s.signature? t).any (isCastStyle s)

/-- The score of a signature type, if it has one. -/
def rating? (s : Store) (actuals : List Ty) (t : Ty) : Option Nat :=
  (s.signature? t).bind fun sig => score? s sig actuals

/-- Go on to the signature type `t`. -/
def rate (s : Store) (actuals : List Ty) (best : Option Best) (t : Ty) : Option Best :=
  match rating? s actuals t with
  | none => best
  | some n => Best.update best n t

lemma search_eq (signatures) : ∀ best, search s actuals best signatures =
    match signatures.find? (isCast s) with
    | some t => .cast t
    | none => .best (signatures.foldl (rate s actuals) best) := by
  induction signatures with
  | nil => intro best; rfl
  | cons t rest ih =>
    intro best
    rw [search]
    cases hs : s.signature? t with
    | none => simp [ih, isCast, rate, rating?, hs]
    | some sig =>
      cases hc : isCastStyle s sig with
      | true => simp [isCast, hs, hc]
      | false => cases hn : score? s sig actuals <;> simp [ih, isCast, rate, rating?, hs, hc, hn]

/-- The score of `t` is greater than that of every other one of the signatures. -/
def Wins (s : Store) (actuals signatures : List Ty) (t : Ty) : Prop :=
  t ∈ signatures ∧ ∃ n, rating? s actuals t = some n ∧
    ∀ u ∈ signatures.erase t, ∀ m, rating? s actuals u = some m → m < n

lemma Wins.unique (ht : Wins s actuals signatures t) (hu : Wins s actuals signatures u) : t = u := by
  obtain ⟨ht, n, hn, hlt⟩ := ht
  obtain ⟨hu, m, hm, hlt'⟩ := hu
  refine Decidable.byContradiction fun hne => ?_
  have h1 := hlt u ((mem_erase_of_ne (Ne.symm hne)).2 hu) m hm
  have h2 := hlt' t ((mem_erase_of_ne hne).2 ht) n hn
  omega

/-- The signatures gone through have no score above that of `b`, and `b` says if two of them have it. -/
structure Leads (s : Store) (actuals done : List Ty) (b : Best) : Prop where
  mem : b.signature ∈ done
  rating : rating? s actuals b.signature = some b.score
  le : ∀ u ∈ done, ∀ m, rating? s actuals u = some m → m ≤ b.score
  tie : b.tie = true ↔ 2 ≤ done.countP (rating? s actuals · == some b.score)

def Ranks (s : Store) (actuals done : List Ty) : Option Best → Prop
  | none => ∀ t ∈ done, rating? s actuals t = none
  | some b => Leads s actuals done b

lemma Ranks.step {best : Option Best} (h : Ranks s actuals done best) (t : Ty) :
    Ranks s actuals (done ++ [t]) (rate s actuals best t) := by
  unfold rate
  cases ht : rating? s actuals t with
  | none =>
    cases best with
    | none => intro u hu; grind [Ranks]
    | some b => obtain ⟨hm, hr, hle, htie⟩ := h; constructor <;> grind
  | some k =>
    cases best with
    | none =>
      have hzero : done.countP (rating? s actuals · == some k) = 0 := by
        simpa [countP_eq_zero] using fun u hu => by simp [h u hu]
      constructor <;> grind [Ranks]
    | some b =>
      obtain ⟨hm, hr, hle, htie⟩ := h
      have hpos : 0 < done.countP (rating? s actuals · == some b.score) :=
        countP_pos_iff.2 ⟨_, hm, by simp [hr]⟩
      simp only [Best.update]
      split
      · constructor <;> grind
      · split
        · constructor <;> grind
        · have hzero : done.countP (rating? s actuals · == some k) = 0 := by
            simp only [countP_eq_zero, beq_iff_eq]
            intro u hu hk
            have := hle u hu k hk
            grind
          constructor <;> grind

lemma Ranks.run (signatures) : ∀ {done best}, Ranks s actuals done best →
    Ranks s actuals (done ++ signatures) (signatures.foldl (rate s actuals) best) := by
  induction signatures with
  | nil => intro done best h; simpa using h
  | cons t rest ih => intro done best h; simpa using ih (h.step t)

/-- There is a winner exactly if the best score has no tie, and it is the best signature then. -/
lemma Leads.wins (h : Leads s actuals done b) (htie : b.tie = false) : Wins s actuals done b.signature := by
  have hcount := mt h.tie.2 (by simp [htie])
  rw [(perm_cons_erase h.mem).countP_eq, countP_cons_of_pos (by simp [h.rating])] at hcount
  refine ⟨h.mem, b.score, h.rating, fun u hu m hm => Nat.lt_of_le_of_ne (h.le u (mem_of_mem_erase hu) m hm) ?_⟩
  rintro rfl
  have hpos : 0 < (done.erase b.signature).countP (rating? s actuals · == some b.score) :=
    countP_pos_iff.2 ⟨u, hu, by simp [hm]⟩
  omega

lemma Leads.not_wins (h : Leads s actuals done b) (htie : b.tie) (u) : ¬ Wins s actuals done u := by
  rintro ⟨hu, n, hn, hlt⟩
  have hle := h.le u hu n hn
  have hlead : b.signature ∈ u :: done.erase u := (perm_cons_erase hu).mem_iff.1 h.mem
  have hscore : n = b.score := by
    rcases mem_cons.1 hlead with heq | hmem
    · simpa [heq, hn] using h.rating
    · exact absurd (hlt _ hmem _ h.rating) (Nat.not_lt.2 hle)
  have hcount := h.tie.1 htie
  rw [(perm_cons_erase hu).countP_eq, countP_cons_of_pos (by simp [hn, hscore])] at hcount
  obtain ⟨v, hv, hv'⟩ := countP_pos_iff.1 (Nat.lt_of_succ_lt_succ hcount)
  exact absurd (hlt v hv _ (beq_iff_eq.1 hv')) (by simp [hscore])

/-- A call that uses the signature type `t`, which is not cast. -/
def chosen (s : Store) (t : Ty) (actuals : List Ty) : Choice :=
  let result := (s.signature? t).bind Signature.result
  ⟨t, if result = some (.pseudo .numeric) then actuals.head?.or result else result⟩

lemma choose_eq_chosen (actuals typeArg) (hcast : ∀ t ∈ primary :: rest, isCast s t = false) :
    ∃ t ∈ primary :: rest, (∀ u, Wins s actuals (primary :: rest) u → t = u) ∧
    ((∀ u, ¬ Wins s actuals (primary :: rest) u) → t = primary) ∧
    choose s (primary :: rest) actuals typeArg = some (chosen s t actuals) := by
  have hnone : (primary :: rest).find? (isCast s) = none := by simpa using hcast
  have hstart : Ranks s actuals [] none := forall_mem_nil _
  have hranks : Ranks s actuals (primary :: rest) _ := hstart.run (primary :: rest)
  rw [choose, search_eq, hnone]
  generalize foldl (rate s actuals) none (primary :: rest) = best at hranks
  rcases best with _ | ⟨n, t, tie⟩
  · refine ⟨primary, mem_cons_self, fun u hu => ?_, fun _ => rfl, ?_⟩
    · obtain ⟨hu, n, hn, _⟩ := hu
      cases (hranks u hu).symm.trans hn
    · dsimp only [chosen]
      split <;> simp_all
  · cases tie with
    | false =>
      have hw := Leads.wins hranks rfl
      refine ⟨t, hranks.mem, fun u hu => hw.unique hu, fun h => absurd hw (h t), ?_⟩
      dsimp only [chosen]
      split <;> simp_all
    | true =>
      have hno := Leads.not_wins hranks rfl
      refine ⟨primary, mem_cons_self, fun u hu => absurd hu (hno u), fun _ => rfl, ?_⟩
      dsimp only [chosen]
      split <;> simp_all

/-- A call uses the signature that scores better than every other one, and the first signature if none
does. It has the result of that signature, the type of the first argument for a generic one. -/
theorem choose_winner (store : Store) (primary : Ty) (rest actuals : List Ty) (typeArg : Option Ty)
    (hcast : ∀ t ∈ primary :: rest, isCast store t = false) :
    ∃ t, (∀ u, Wins store actuals (primary :: rest) u → t = u) ∧
      ((∀ u, ¬ Wins store actuals (primary :: rest) u) → t = primary) ∧
      choose store (primary :: rest) actuals typeArg = some ⟨t,
        let result := (store.signature? t).bind Signature.result
        if result = some (.pseudo .numeric) then actuals.head?.or result else result⟩ := by
  obtain ⟨t, _, hwin, hprimary, hchoose⟩ := choose_eq_chosen actuals typeArg hcast
  exact ⟨t, hwin, hprimary, hchoose⟩

/-- A generic signature of `ABS` before one for integers. -/
def absolute : Store where
  types := #[⟨.procedure ⟨[⟨0⟩], some (.pseudo .numeric), false⟩, none⟩,
    ⟨.procedure ⟨[⟨1⟩], some .integer, false⟩, none⟩]
  decls := #[{ (default : Declaration) with type := .pseudo .numeric },
    { (default : Declaration) with type := .integer }]

theorem choose_winner_absolute :
    Wins absolute [.integer] [.composite 0, .composite 1] (.composite 1) ∧
    choose absolute [.composite 0, .composite 1] [.integer] none =
    some ⟨.composite 1, some .integer⟩ := by
  have hwins : Wins absolute [.integer] [.composite 0, .composite 1] (.composite 1) := by
    refine ⟨by decide, 2, by decide, fun u hu m hm => ?_⟩
    cases List.mem_singleton.1 hu
    exact (Option.some.inj hm) ▸ (by decide : 1 < 2)
  obtain ⟨t, hwin, -, hchoose⟩ := choose_winner absolute (.composite 0) [.composite 1] [.integer] none (by decide)
  cases hwin _ hwins
  exact ⟨hwins, hchoose⟩

end Dispatch
end Oberon
