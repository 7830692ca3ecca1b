import AbiBindings.Proofs.Identifier.Assign

/-!
Identifiers with two underscores in front. The identifier of a single name never has them, but a
number adds an underscore, and after a name that is the underscore alone it is the second. So a
namespace has such an identifier exactly when two of its entries show nothing but underscores.
-/

namespace AbiBindings.Identifier

/-- Whether a name shows nothing in its identifier but underscores. -/
def isBare (snake : Bool) (name : Text) : Bool :=
  !name.any (if snake then showsInLower else CodePoint.isAlphanumeric)

theorem isBare_eq_false_iff {snake : Bool} {name : Text} :
    isBare snake name = false ↔ ∃ c ∈ source snake name, c.isAlphanumeric = true := by
  rw [isBare, Bool.not_eq_false', List.any_eq_true]
  cases snake with
  | false => rfl
  | true => exact (exists_alphanumeric_mem_snakeCase name).symm

theorem eq_underscore_of_forall_mem {t : Text} (hne : t ≠ [])
    (hstart : Text.startsWith t "__" = false) (h : ∀ c ∈ t, c = CodePoint.ofChar '_') :
    t = "_" := by
  match t, hne with
  | [c], _ =>
    rw [h c List.mem_cons_self]
    rfl
  | c :: d :: rest, _ =>
    have hc : c = CodePoint.ofChar '_' := h c List.mem_cons_self
    have hd : d = CodePoint.ofChar '_' := h d (List.mem_cons_of_mem _ List.mem_cons_self)
    have htwo : Text.startsWith (c :: d :: rest) "__" = true :=
      startsWith_underscores.mpr ⟨rest, by rw [hc, hd]⟩
    rw [hstart] at htwo
    exact absurd htwo (by decide)

section

variable {reserved : List Text} (hreserved : ∀ t ∈ reserved, EndsInLetter t)

include hreserved

/-- A name becomes the underscore exactly when it shows nothing else. -/
theorem sanitize_eq_underscore_iff {snake : Bool} {name : Text} :
    sanitize snake reserved name = "_" ↔ isBare snake name = true := by
  constructor
  · intro heq
    by_contra hbare
    obtain ⟨c, hc, hshown⟩ := isBare_eq_false_iff.mp (Bool.eq_false_iff.mpr hbare)
    obtain ⟨hpart, hne⟩ := CodePoint.isAlphanumeric_iff.mp hshown
    have hmem := (mem_sanitize hne snake reserved name).mpr ⟨hpart, hc⟩
    rw [heq] at hmem
    exact hne (List.mem_singleton.mp hmem)
  · intro hbare
    apply eq_underscore_of_forall_mem (sanitize_ne_nil hreserved snake name)
      (startsWith_sanitize hreserved snake name)
    intro c hc
    by_contra hne
    obtain ⟨hpart, hmem⟩ := (mem_sanitize hne snake reserved name).mp hc
    have hshown := CodePoint.isAlphanumeric_iff.mpr ⟨hpart, hne⟩
    rw [isBare_eq_false_iff.mpr ⟨c, hmem, hshown⟩] at hbare
    exact absurd hbare (by decide)

end

theorem numbered_eq_underscore {t : Text} {number : Nat} (hne : t ≠ [])
    (h : numbered t number = "_") : t = "_" ∧ number = 0 := by
  rw [numbered_eq_append] at h
  obtain ⟨c, rest, rfl⟩ := List.exists_cons_of_ne_nil hne
  have htail : rest ++ numbered [] number = [] := List.tail_eq_of_cons_eq h
  obtain ⟨hrest, hnumber⟩ := List.append_eq_nil_iff.mp htail
  subst hrest
  rw [hnumber] at h
  refine ⟨h, ?_⟩
  cases number with
  | zero => rfl
  | succ number => exact absurd hnumber (List.cons_ne_nil _ _)

theorem numbered_ne_nil {t : Text} (hne : t ≠ []) (number : Nat) : numbered t number ≠ [] := by
  rw [numbered_eq_append]
  exact List.append_ne_nil_of_left_ne_nil hne _

/-- Of the numbered forms of a name, those of the underscore start with two, but for the underscore
itself. -/
theorem startsWith_numbered {t : Text} (hne : t ≠ []) (number : Nat) :
    Text.startsWith (numbered t number) "__" = true ↔
      Text.startsWith t "__" = true ∨ t = "_" ∧ numbered t number ≠ "_" := by
  by_cases hbare : t = "_"
  · subst hbare
    cases number with
    | zero => decide
    | succ number =>
      have hnumber : numbered ("_" : Text) (number + 1) ≠ "_" :=
        fun h => absurd (numbered_eq_underscore hne h).2 (Nat.succ_ne_zero number)
      exact iff_of_true rfl (.inr ⟨rfl, hnumber⟩)
  · rw [numbered_eq_append, startsWith_append hne hbare, iff_self_or]
    exact fun h => absurd h.1 hbare

theorem startsWith_numbered_numbered {t : Text} (hne : t ≠ [])
    (hstart : Text.startsWith t "__" = false) (n k : Nat) :
    Text.startsWith (numbered (numbered t n) k) "__" = true ↔
      t = "_" ∧ numbered (numbered t n) k ≠ "_" := by
  rw [startsWith_numbered (numbered_ne_nil hne n), startsWith_numbered hne, hstart]
  constructor
  · rintro ((h | ⟨hbare, hn⟩) | ⟨hbare, hk⟩)
    · exact absurd h (by decide)
    · exact ⟨hbare, fun h => hn (numbered_eq_underscore (numbered_ne_nil hne n) h).1⟩
    · exact ⟨(numbered_eq_underscore hne hbare).1, hk⟩
  · rintro ⟨hbare, hk⟩
    by_cases hn : numbered t n = "_"
    · exact .inr ⟨hn, hk⟩
    · exact .inl (.inr ⟨hbare, hn⟩)

theorem one_lt_countP {α : Type} {l : List α} {p : α → Bool} {a b : α} (ha : a ∈ l) (hb : b ∈ l)
    (hne : a ≠ b) (hpa : p a = true) (hpb : p b = true) : 1 < l.countP p := by
  have hdistinct : [a, b].Nodup := by simp [hne]
  have hsubset : [a, b] ⊆ l.filter p := by
    intro c hc
    rcases List.mem_pair.mp hc with rfl | rfl
    · exact List.mem_filter.mpr ⟨ha, hpa⟩
    · exact List.mem_filter.mpr ⟨hb, hpb⟩
  have htwo := (hdistinct.subperm hsubset).length_le
  rw [← List.countP_eq_length_filter] at htwo
  exact htwo

/-- Whether the alias of an entry, or its name if it has none, shows nothing but underscores. -/
def isBareEntry (snake : Bool) (aliases : List (Text × Text)) (entry : Named) : Bool :=
  match Json.lookup aliases entry.signature with
  | some word => isBare false word
  | none => isBare snake entry.name

section

variable {snake : Bool} {reserved : List Text} {aliases : List (Text × Text)}
variable {entries : List Named} (hreserved : ∀ t ∈ reserved, EndsInLetter t)

include hreserved

theorem base_eq_underscore_iff (entry : Named) :
    base snake reserved aliases entry = "_" ↔ isBareEntry snake aliases entry = true := by
  rw [isBareEntry]
  cases h : Json.lookup aliases entry.signature with
  | some word => rw [base_of_some h, sanitize_eq_underscore_iff hreserved]
  | none => rw [base_of_none h, sanitize_eq_underscore_iff hreserved]

theorem base_ne_nil (entry : Named) : base snake reserved aliases entry ≠ [] := by
  obtain ⟨style, word, hbase⟩ := exists_base_eq snake reserved aliases entry
  rw [hbase]
  exact sanitize_ne_nil hreserved style word

theorem startsWith_base (entry : Named) :
    Text.startsWith (base snake reserved aliases entry) "__" = false := by
  obtain ⟨style, word, hbase⟩ := exists_base_eq snake reserved aliases entry
  rw [hbase]
  exact startsWith_sanitize hreserved style word

/-- An identifier has two underscores in front when its entry shows nothing else and it is not the
underscore. -/
theorem startsWith_of_mem_zip_assign {p : Named × Text}
    (hp : p ∈ entries.zip (assign snake reserved aliases entries)) :
    Text.startsWith p.2 "__" = true ↔
      base snake reserved aliases p.1 = "_" ∧ p.2 ≠ "_" := by
  obtain ⟨n, k, heq, -, -⟩ := exists_numbered_of_mem_zip_assign hp
  rw [heq]
  exact startsWith_numbered_numbered (base_ne_nil hreserved p.1) (startsWith_base hreserved p.1)
    n k

theorem base_of_underscore_mem_assign
    (h : ("_" : Text) ∈ assign snake reserved aliases entries) :
    ∃ p ∈ entries.zip (assign snake reserved aliases entries),
      p.2 = "_" ∧ base snake reserved aliases p.1 = "_" := by
  rw [← map_snd_zip_assign] at h
  obtain ⟨p, hp, hunderscore⟩ := List.mem_map.mp h
  obtain ⟨n, k, heq, -, -⟩ := exists_numbered_of_mem_zip_assign hp
  have hne : base snake reserved aliases p.1 ≠ [] := base_ne_nil hreserved p.1
  rw [hunderscore] at heq
  have hn := (numbered_eq_underscore (numbered_ne_nil hne n) heq.symm).1
  exact ⟨p, hp, hunderscore, (numbered_eq_underscore hne hn).1⟩

/-- An identifier with two underscores in front is not alone: another one belongs to an entry that
shows nothing else either. -/
theorem exists_other_of_startsWith {p : Named × Text}
    (hp : p ∈ entries.zip (assign snake reserved aliases entries))
    (hstart : Text.startsWith p.2 "__" = true) :
    1 < entries.countP (isBareEntry snake aliases) ∨
      ∃ q ∈ entries.zip (assign snake reserved aliases entries),
        q ≠ p ∧ base snake reserved aliases q.1 = "_" := by
  obtain ⟨hbase, hne⟩ := (startsWith_of_mem_zip_assign hreserved hp).mp hstart
  obtain ⟨n, k, heq, hlt, hclash⟩ := exists_numbered_of_mem_zip_assign hp
  rw [hbase] at heq hlt hclash
  cases n with
  | succ n =>
    left
    have hcount : entries.countP (isBareEntry snake aliases) =
        entries.countP fun other => base snake reserved aliases other = "_" := by
      apply List.countP_congr
      intro other _
      rw [decide_eq_true_eq, base_eq_underscore_iff hreserved]
    omega
  | zero =>
    right
    have hk : 0 < k := by
      apply Nat.pos_of_ne_zero
      rintro rfl
      exact hne heq
    obtain ⟨q, hq, hunderscore, hother⟩ := base_of_underscore_mem_assign hreserved (hclash hk)
    refine ⟨q, hq, ?_, hother⟩
    rintro rfl
    exact hne hunderscore

/-- Where no identifier has two underscores in front, those of the entries that show nothing else
are all the underscore. -/
theorem countP_le_one_of_startsWith
    (h : ∀ t ∈ assign snake reserved aliases entries, Text.startsWith t "__" = false) :
    (entries.zip (assign snake reserved aliases entries)).countP
      (fun p => isBareEntry snake aliases p.1) ≤ 1 := by
  let bare := (entries.zip (assign snake reserved aliases entries)).filter fun p =>
    isBareEntry snake aliases p.1
  have hnames : (bare.map Prod.snd).Nodup := by
    apply List.Nodup.sublist (List.filter_sublist.map Prod.snd)
    rw [map_snd_zip_assign]
    exact nodup_assign snake reserved aliases entries
  have hall : ∀ t ∈ bare.map Prod.snd, t = "_" := by
    intro t ht
    obtain ⟨p, hp, rfl⟩ := List.mem_map.mp ht
    obtain ⟨hpair, hbare⟩ := List.mem_filter.mp hp
    have hunderscore := (base_eq_underscore_iff hreserved p.1).mpr hbare
    by_contra hne
    have hstart := (startsWith_of_mem_zip_assign hreserved hpair).mpr ⟨hunderscore, hne⟩
    rw [h p.2 (List.of_mem_zip hpair).2] at hstart
    exact absurd hstart (by decide)
  rw [List.eq_replicate_of_mem hall, List.nodup_replicate, List.length_map] at hnames
  rw [List.countP_eq_length_filter]
  exact hnames

/-- No identifier of a namespace has two underscores in front exactly when at most one entry shows
nothing else. -/
theorem assign_startsWith_iff (snake : Bool) (aliases : List (Text × Text))
    (entries : List Named) :
    (∀ t ∈ assign snake reserved aliases entries, Text.startsWith t "__" = false) ↔
      entries.countP (isBareEntry snake aliases) ≤ 1 := by
  have hcount : (entries.zip (assign snake reserved aliases entries)).countP
      (fun p => isBareEntry snake aliases p.1) = entries.countP (isBareEntry snake aliases) := by
    conv_rhs => rw [← map_fst_zip_assign snake reserved aliases entries, List.countP_map]
    rfl
  constructor
  · intro h
    rw [← hcount]
    exact countP_le_one_of_startsWith hreserved h
  · intro h t ht
    rw [← map_snd_zip_assign] at ht
    obtain ⟨p, hp, rfl⟩ := List.mem_map.mp ht
    rw [Bool.eq_false_iff]
    intro hstart
    have hbase := ((startsWith_of_mem_zip_assign hreserved hp).mp hstart).1
    rcases exists_other_of_startsWith hreserved hp hstart with hmany | ⟨q, hq, hne, hother⟩
    · omega
    · have htwo := one_lt_countP (p := fun p => isBareEntry snake aliases p.1) hq hp hne
        ((base_eq_underscore_iff hreserved q.1).mp hother)
        ((base_eq_underscore_iff hreserved p.1).mp hbase)
      rw [hcount] at htwo
      omega

end

end AbiBindings.Identifier
