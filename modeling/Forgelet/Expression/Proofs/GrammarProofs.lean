import Forgelet.Expression.Grammar

/-!
# Proofs: what the grammar reads

What is read is a part of the tokens in which parentheses are in balance, and it is read alike whether the text ends
after it or a closing parenthesis follows. The rules have one premise or two, and are treated by these two forms.
-/

namespace Forgelet.Expression

/-- The open parentheses after a token; `none` for a closing one without its opening one. -/
def openAfter (d : Nat) : Tok → Option Nat
  | .punct .lparen => some (d + 1)
  | .punct .rparen => if d = 0 then none else some (d - 1)
  | _ => some d

/-- The parentheses that are open after all tokens. -/
def openAfterAll : Nat → List Tok → Option Nat
  | d, [] => some d
  | d, t :: ts => (openAfter d t).bind (openAfterAll · ts)

theorem openAfterAll_append (d : Nat) (ts ts' : List Tok) :
    openAfterAll d (ts ++ ts') = (openAfterAll d ts).bind (openAfterAll · ts') := by
  induction ts generalizing d with
  | nil => rfl
  | cons t ts ih =>
    rw [List.cons_append, openAfterAll, openAfterAll, Option.bind_assoc]
    exact congrArg (Option.bind _) (funext fun d' => ih d')

/-- The end of the text and a closing parenthesis end whatever is read. -/
def AtEnd (t : Tok) : Prop := t = .eof ∨ t = .punct .rparen

/-- Two rests that end what is read before them alike. -/
def EndsAlike (r r' : List Tok) : Prop := peek r = peek r' ∨ AtEnd (peek r) ∧ AtEnd (peek r')

namespace EndsAlike

variable {r r' : List Tok}

theorem append (h : EndsAlike r r') (u : List Tok) : EndsAlike (u ++ r) (u ++ r') := by
  cases u with
  | nil => exact h
  | cons t u => exact .inl rfl

theorem ne_punct (h : EndsAlike r r') {p} (hp : p ≠ .rparen) (hne : peek r ≠ .punct p) : peek r' ≠ .punct p := by
  rcases h with heq | ⟨-, hend | hend⟩
  · rw [← heq]
    exact hne
  · rw [hend]
    exact nofun
  · rw [hend]
    exact fun heq => hp (Tok.punct.inj heq).symm

theorem compareOp_none (h : EndsAlike r r') (hnone : compareOp (peek r) = none) : compareOp (peek r') = none := by
  rcases h with heq | ⟨-, hend | hend⟩
  · rw [← heq]
    exact hnone
  · rw [hend]
    rfl
  · rw [hend]
    rfl

end EndsAlike

/-- The goal takes a token, whatever follows. -/
def Goal.eager : Goal → Bool
  | .orTail _ | .andTail _ | .compareTail _ | .chainTail _ => false
  | _ => true

/-- The parentheses closed but not opened in what is read: that at the end of a call. -/
def Goal.closes : Goal → Nat
  | .args _ _ => 1
  | _ => 0

/-- The tokens read stand before the rest, in balance, and are read alike before every rest that ends them alike. -/
structure Reads (g : Goal) (n : Node) (r used : List Tok) : Prop where
  live : .eof ∉ used
  eager : g.eager → used ≠ []
  balanced : ∀ d, openAfterAll (d + g.closes) used = some d
  again : ∀ r', EndsAlike r r' → Parses g (used ++ r') n r'

theorem peek_append {u r r'} (h : u ≠ []) : peek (u ++ r) = peek (u ++ r') := by
  cases u with
  | nil => exact absurd rfl h
  | cons t u => rfl

/-- The tokens close what they open. -/
def Neutral (ts : List Tok) : Prop := .eof ∉ ts ∧ ∀ d, openAfterAll d ts = some d

theorem neutral_nil : Neutral [] := ⟨List.not_mem_nil, fun _ => rfl⟩

theorem neutral_singleton {t} (ht : t ≠ .eof) (h : ∀ d, openAfter d t = some d) : Neutral [t] := by
  refine ⟨fun hmem => ht (List.mem_singleton.mp hmem).symm, fun d => ?_⟩
  rw [openAfterAll, h]
  rfl

theorem neutral_punct {p} (h : ∀ d, openAfter d (.punct p) = some d) : Neutral [.punct p] :=
  neutral_singleton nofun h

theorem neutral_compareOp {t op} (h : compareOp t = some op) : Neutral [t] := by
  unfold compareOp at h
  split at h
  all_goals first | exact neutral_punct fun _ => rfl | cases h

namespace Reads

variable {g g₁ g₂ : Goal} {n x : Node} {ts ts' r : List Tok}

/-- A rule with two premises, with tokens in front and between. -/
theorem two (pre mid : List Tok) (ih₁ : ∃ u₁, ts = u₁ ++ (mid ++ ts') ∧ Reads g₁ x (mid ++ ts') u₁)
    (ih₂ : ∃ u₂, ts' = u₂ ++ r ∧ Reads g₂ n r u₂) (hpre : Neutral pre) (hmid : Neutral mid)
    (hg₁ : g₁.eager ∧ g₁.closes = 0) (hg : g₂.closes = g.closes)
    (rule : ∀ ts ts' r, Parses g₁ ts x (mid ++ ts') → Parses g₂ ts' n r → Parses g (pre ++ ts) n r) :
    ∃ u, pre ++ ts = u ++ r ∧ Reads g n r u := by
  obtain ⟨u₁, rfl, h₁⟩ := ih₁
  obtain ⟨u₂, rfl, h₂⟩ := ih₂
  refine ⟨pre ++ (u₁ ++ (mid ++ u₂)), by simp, ?_, fun _ hnil => ?_, fun d => ?_, fun r' hr' => ?_⟩
  · simp only [List.mem_append, not_or]
    exact ⟨hpre.1, h₁.live, hmid.1, h₂.live⟩
  · simp only [List.append_eq_nil_iff] at hnil
    exact h₁.eager hg₁.1 hnil.2.1
  · have hu₁ := h₁.balanced (d + g.closes)
    rw [hg₁.2, Nat.add_zero] at hu₁
    rw [openAfterAll_append, hpre.2, Option.bind_some, openAfterAll_append, hu₁, Option.bind_some, openAfterAll_append,
      hmid.2, Option.bind_some, ← hg]
    exact h₂.balanced d
  · have hread : Parses g₁ (u₁ ++ (mid ++ (u₂ ++ r'))) x (mid ++ (u₂ ++ r')) :=
      h₁.again _ ((hr'.append u₂).append mid)
    have hall := rule _ _ _ hread (h₂.again r' hr')
    simp only [List.append_assoc]
    exact hall

/-- A rule with one premise, with tokens in front and after; it may look at the next one. -/
theorem one (pre post : List Tok) (ih : ∃ u, ts = u ++ (post ++ r) ∧ Reads g₁ x (post ++ r) u)
    (hlive : .eof ∉ pre ++ post) (hg₁ : g₁.eager)
    (hbalanced : ∀ d, ∃ d', openAfterAll (d + g.closes) pre = some (d' + g₁.closes) ∧ openAfterAll d' post = some d)
    (rule : ∀ ts' r', peek ts' = peek ts → Parses g₁ ts' x (post ++ r') → Parses g (pre ++ ts') n r') :
    ∃ u, pre ++ ts = u ++ r ∧ Reads g n r u := by
  obtain ⟨u, rfl, h₁⟩ := ih
  refine ⟨pre ++ (u ++ post), by simp, ?_, fun _ hnil => ?_, fun d => ?_, fun r' hr' => ?_⟩
  · simp only [List.mem_append, not_or] at hlive ⊢
    exact ⟨hlive.1, h₁.live, hlive.2⟩
  · simp only [List.append_eq_nil_iff] at hnil
    exact h₁.eager hg₁ hnil.2.1
  · obtain ⟨d', hpre, hpost⟩ := hbalanced d
    rw [openAfterAll_append, hpre, Option.bind_some, openAfterAll_append, h₁.balanced, Option.bind_some, hpost]
  · have hread : Parses g₁ (u ++ (post ++ r')) x (post ++ r') := h₁.again _ (hr'.append post)
    have hall := rule _ _ (peek_append (h₁.eager hg₁)) hread
    simp only [List.append_assoc]
    exact hall

/-- A rule that reads tokens only. -/
theorem tokens {used} (hused : Neutral used) (hne : used ≠ []) (hg : g.closes = 0)
    (rule : ∀ r', EndsAlike r r' → Parses g (used ++ r') n r') : Reads g n r used := by
  refine ⟨hused.1, fun _ => hne, fun d => ?_, rule⟩
  rw [hg]
  exact hused.2 d

/-- A rule that reads nothing. -/
theorem nothing (hg : g.eager = false ∧ g.closes = 0) (rule : ∀ r', EndsAlike r r' → Parses g r' n r') :
    Reads g n r [] := by
  refine ⟨List.not_mem_nil, fun h => ?_, fun d => ?_, rule⟩
  · rw [hg.1] at h
    cases h
  · rw [hg.2]
    rfl

end Reads

theorem Parses.reads {g ts r n} (h : Parses g ts n r) : ∃ used, ts = used ++ r ∧ Reads g n r used := by
  induction h with
  | or _ _ ih₁ ih₂ =>
    exact Reads.two [] [] ih₁ ih₂ neutral_nil neutral_nil ⟨rfl, rfl⟩ rfl fun _ _ _ => .or
  | orEnd hend => exact ⟨[], rfl, .nothing ⟨rfl, rfl⟩ fun _ hr' => .orEnd (hr'.ne_punct nofun hend)⟩
  | orMore _ _ ih₁ ih₂ =>
    exact Reads.two [.punct .or] [] ih₁ ih₂ (neutral_punct fun _ => rfl) neutral_nil ⟨rfl, rfl⟩ rfl fun _ _ _ => .orMore
  | and _ _ ih₁ ih₂ =>
    exact Reads.two [] [] ih₁ ih₂ neutral_nil neutral_nil ⟨rfl, rfl⟩ rfl fun _ _ _ => .and
  | andEnd hend => exact ⟨[], rfl, .nothing ⟨rfl, rfl⟩ fun _ hr' => .andEnd (hr'.ne_punct nofun hend)⟩
  | andMore _ _ ih₁ ih₂ =>
    exact Reads.two [.punct .and] [] ih₁ ih₂ (neutral_punct fun _ => rfl) neutral_nil
      ⟨rfl, rfl⟩ rfl fun _ _ _ => .andMore
  | compare _ _ ih₁ ih₂ =>
    exact Reads.two [] [] ih₁ ih₂ neutral_nil neutral_nil ⟨rfl, rfl⟩ rfl fun _ _ _ => .compare
  | compareEnd hend => exact ⟨[], rfl, .nothing ⟨rfl, rfl⟩ fun _ hr' => .compareEnd (hr'.compareOp_none hend)⟩
  | compareMore hop _ _ ih₁ ih₂ =>
    exact Reads.two [_] [] ih₁ ih₂ (neutral_compareOp hop) neutral_nil ⟨rfl, rfl⟩ rfl fun _ _ _ => .compareMore hop
  | not _ ih =>
    exact Reads.one [.punct .not] [] ih (by simp) rfl (fun d => ⟨d, rfl, rfl⟩) fun _ _ _ => .not
  | plain hnot _ ih =>
    exact Reads.one [] [] ih (by simp) rfl (fun d => ⟨d, rfl, rfl⟩) fun _ _ hpeek =>
      .plain (by rw [hpeek]; exact hnot)
  | chain _ _ ih₁ ih₂ =>
    exact Reads.two [] [] ih₁ ih₂ neutral_nil neutral_nil ⟨rfl, rfl⟩ rfl fun _ _ _ => .chain
  | chainEnd hdot hlbrack =>
    exact ⟨[], rfl, .nothing ⟨rfl, rfl⟩ fun _ hr' => .chainEnd (hr'.ne_punct nofun hdot) (hr'.ne_punct nofun hlbrack)⟩
  | dot _ hkey _ ih₁ ih₂ =>
    exact Reads.two [.punct .dot] [] ih₁ ih₂ (neutral_punct fun _ => rfl) neutral_nil ⟨rfl, rfl⟩ rfl fun _ _ _ hprop =>
      .dot hprop hkey
  | index _ _ ih₁ ih₂ =>
    exact Reads.two [.punct .lbrack] [.punct .rbrack] ih₁ ih₂ (neutral_punct fun _ => rfl) (neutral_punct fun _ => rfl)
      ⟨rfl, rfl⟩ rfl fun _ _ _ => .index
  | number =>
    exact ⟨[_], rfl,
      .tokens (neutral_singleton nofun fun _ => rfl) nofun rfl fun _ _ => .number⟩
  | string =>
    exact ⟨[_], rfl,
      .tokens (neutral_singleton nofun fun _ => rfl) nofun rfl fun _ _ => .string⟩
  | constant hconst =>
    exact ⟨[_], rfl, .tokens (neutral_singleton nofun fun _ => rfl) nofun rfl fun _ _ =>
      .constant hconst⟩
  | ident hconst hcall =>
    exact ⟨[_], rfl, .tokens (neutral_singleton nofun fun _ => rfl) nofun rfl fun _ hr' =>
      .ident hconst (hr'.ne_punct nofun hcall)⟩
  | callEmpty hconst =>
    exact ⟨[_, _, _], rfl, .tokens ⟨by simp, fun _ => rfl⟩ nofun rfl fun _ _ => .callEmpty hconst⟩
  | call hconst hargs _ ih =>
    exact Reads.one [.ident _, .punct .lparen] [] ih (by simp) rfl (fun d => ⟨d, rfl, rfl⟩) fun _ _ hpeek =>
      .call hconst (by rw [hpeek]; exact hargs)
  | paren _ ih =>
    exact Reads.one [.punct .lparen] [.punct .rparen] ih (by simp) rfl (fun d => ⟨d + 1, rfl, rfl⟩)
      fun _ _ _ => .paren
  | argsMore _ _ ih₁ ih₂ =>
    exact Reads.two [] [.punct .comma] ih₁ ih₂ neutral_nil (neutral_punct fun _ => rfl) ⟨rfl, rfl⟩ rfl
      fun _ _ _ => .argsMore
  | argsEnd _ ih =>
    exact Reads.one [] [.punct .rparen] ih (by simp) rfl (fun d => ⟨d + 1, rfl, rfl⟩) fun _ _ _ => .argsEnd

theorem Parses.length_le {g ts r n} (h : Parses g ts n r) : r.length ≤ ts.length := by
  obtain ⟨used, rfl, -⟩ := h.reads
  rw [List.length_append]
  exact Nat.le_add_left ..

theorem Parses.length_lt {g ts r n} (h : Parses g ts n r) (hg : g.eager) : r.length < ts.length := by
  obtain ⟨used, rfl, hused⟩ := h.reads
  rw [List.length_append]
  exact Nat.lt_add_of_pos_left (List.length_pos_of_ne_nil (hused.eager hg))

end Forgelet.Expression
