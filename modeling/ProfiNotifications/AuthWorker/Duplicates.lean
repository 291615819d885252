import ProfiNotifications.AuthWorker.Token

/-! # Removal of duplicate tokens

Of several readable copies of a token cookie the removal keeps the first one with the
furthest expiry. Everything else stays, and so does what the jar says about the session:
a second removal finds nothing.
-/

namespace ProfiNotifications.AuthWorker

namespace TokenCodec

variable {codec : TokenCodec} {j : Jar} {name : String} {e now : Int64} {c d : Cookie}
  {t : TokenInfo} {latest latest' : List TokenInfo}

abbrev kept (codec : TokenCodec) (j : Jar) : Jar := (codec.removeOldTokenDuplicates j).1

abbrev removed (codec : TokenCodec) (j : Jar) : List Cookie := (codec.removeOldTokenDuplicates j).2

/-- Of the cookies of a name the first readable one with the furthest expiry. -/
def FirstFreshest (codec : TokenCodec) (j : Jar) (name : String) (c : Cookie) : Prop :=
  ∃ before after e, j.cookies = before ++ c :: after ∧ c.name = name ∧
    codec.decodeJWTExp c.value = some e ∧
    (∀ d ∈ before, d.name = name → ∀ e', codec.decodeJWTExp d.value = some e' → e' < e) ∧
    ∀ d ∈ after, d.name = name → ∀ e', codec.decodeJWTExp d.value = some e' → e' ≤ e

/-- What the removal of old duplicates does to a jar. -/
structure KeepsFreshest (codec : TokenCodec) (j : Jar) : Prop where
  kept_order : (codec.kept j).cookies.Sublist j.cookies
  removed_order : (codec.removed j).Sublist j.cookies
  split : ((codec.kept j).cookies ++ codec.removed j).Perm j.cookies
  others : ∀ c ∈ j.cookies, ¬ IsTokenCookie c.name ∨ codec.expirations j c.name = ∅ →
    c ∈ (codec.kept j).cookies
  freshest : ∀ name, (codec.expirations j name).Nonempty →
    ∃ c, codec.FirstFreshest j name c ∧
      (codec.kept j).cookies.filter (fun d => d.name = name) = [c]
  latest : ∀ name, Keyed.lookup TokenInfo.name (codec.latestTokens (codec.kept j)) name =
    Keyed.lookup TokenInfo.name (codec.latestTokens j) name
  touched : codec.allTouched (codec.kept j) = codec.allTouched j
  lifetime : ∀ now, codec.tokenTTL (codec.kept j) now = codec.tokenTTL j now
  again : codec.removed (codec.kept j) = []

theorem nodup_latestTokens (codec : TokenCodec) (j : Jar) :
    ((codec.latestTokens j).map TokenInfo.name).Nodup :=
  Latest.nodup_latest TokenInfo.name TokenInfo.expiration _

theorem tokenInfo_of_lookup
    (h : Keyed.lookup TokenInfo.name (codec.latestTokens j) name = some t) :
    codec.tokenInfo t.cookie = some t := by
  obtain ⟨⟨hm, -⟩, -⟩ := Latest.holds_of_lookup h
  obtain ⟨c, -, hi⟩ := List.mem_filterMap.mp hm
  obtain ⟨-, -, rfl, -⟩ := tokenInfo_eq_some hi
  exact hi

theorem lookup_latestTokens_eq_none_iff :
    Keyed.lookup TokenInfo.name (codec.latestTokens j) name = none ↔
      codec.expirations j name = ∅ := by
  constructor
  · intro h
    by_contra hne
    obtain ⟨t, ht⟩ := exists_lookup_latestTokens (Set.nonempty_iff_ne_empty.mpr hne)
    rw [h] at ht
    cases ht
  · intro h
    cases hl : Keyed.lookup TokenInfo.name (codec.latestTokens j) name with
    | none => rfl
    | some t =>
      obtain ⟨hc, hname, hn, he⟩ := mem_of_lookup_latestTokens hl
      have hmem : t.expiration ∈ codec.expirations j name := ⟨t.cookie, hc, hname, hn, he⟩
      rw [h] at hmem
      cases hmem

/-- The freshest token is the first one with the furthest expiry. -/
theorem firstFreshest_of_lookup
    (h : Keyed.lookup TokenInfo.name (codec.latestTokens j) name = some t) :
    codec.FirstFreshest j name t.cookie := by
  obtain ⟨before, after, hl, hk, hb, ha⟩ := Latest.first_of_lookup h
  obtain ⟨cs, cs', hcs, rfl, hcs'⟩ := List.filterMap_eq_append_iff.mp hl
  obtain ⟨skipped, c, rest, rfl, hskip, hi, rfl⟩ := List.filterMap_eq_cons_iff.mp hcs'
  obtain ⟨hn, -, rfl, he⟩ := tokenInfo_eq_some hi
  obtain ⟨-, hname, hn', -⟩ := mem_of_lookup_latestTokens h
  refine ⟨cs ++ skipped, rest, t.expiration, by rw [hcs, List.append_assoc], hname, he, ?_, ?_⟩
  · intro d hd hdn e' he'
    obtain ⟨u, hu, huname, rfl⟩ := exists_tokenInfo (hdn ▸ hn' : IsTokenCookie d.name) he'
    rcases List.mem_append.mp hd with hd | hd
    · exact hb u (List.mem_filterMap.mpr ⟨d, hd, hu⟩) (huname.trans hdn)
    · rw [hskip d hd] at hu
      cases hu
  · intro d hd hdn e' he'
    obtain ⟨u, hu, huname, rfl⟩ := exists_tokenInfo (hdn ▸ hn' : IsTokenCookie d.name) he'
    exact ha u (List.mem_filterMap.mpr ⟨d, hd, hu⟩) (huname.trans hdn)

theorem mem_kept : c ∈ (codec.kept j).cookies ↔
    c ∈ j.cookies ∧ isStaleDuplicate c (codec.latestTokens j) = false := by
  simp [kept, removeOldTokenDuplicates, Jar.filter]

theorem isStaleDuplicate_congr
    (h : Keyed.lookup TokenInfo.name latest c.name = Keyed.lookup TokenInfo.name latest' c.name) :
    isStaleDuplicate c latest = isStaleDuplicate c latest' := by
  rw [isStaleDuplicate, isStaleDuplicate, h]

theorem isStaleDuplicate_eq_false (h : ¬ IsTokenCookie c.name ∨ codec.expirations j c.name = ∅) :
    isStaleDuplicate c (codec.latestTokens j) = false := by
  rcases h with h | h
  · simp [isStaleDuplicate, h]
  · simp [isStaleDuplicate, lookup_latestTokens_eq_none_iff.mpr h]

theorem cookie_mem_kept
    (h : Keyed.lookup TokenInfo.name (codec.latestTokens j) name = some t) :
    t.cookie ∈ (codec.kept j).cookies := by
  obtain ⟨hc, hname, -, -⟩ := mem_of_lookup_latestTokens h
  refine mem_kept.mpr ⟨hc, ?_⟩
  simp [isStaleDuplicate, hname, h, Cookie.SameValue, Cookie.SameIdentity]

theorem filter_kept (h : Keyed.lookup TokenInfo.name (codec.latestTokens j) name = some t) :
    (codec.kept j).cookies.filter (fun d => d.name = name) = [t.cookie] := by
  obtain ⟨hc, hname, hn, he⟩ := mem_of_lookup_latestTokens h
  have hne : (codec.expirations j name).Nonempty := ⟨t.expiration, t.cookie, hc, hname, hn, he⟩
  obtain ⟨c, -, hone⟩ := filter_removeOldTokenDuplicates hne
  have hmem : t.cookie ∈ (codec.kept j).cookies.filter fun d => d.name = name :=
    List.mem_filter.mpr ⟨cookie_mem_kept h, decide_eq_true hname⟩
  rw [hone] at hmem ⊢
  rw [List.mem_singleton.mp hmem]

theorem expirations_kept_subset (codec : TokenCodec) (j : Jar) (name : String) :
    codec.expirations (codec.kept j) name ⊆ codec.expirations j name := by
  rintro e ⟨c, hc, h⟩
  exact ⟨c, (mem_kept.mp hc).1, h⟩

theorem lookup_latestTokens_kept (codec : TokenCodec) (j : Jar) (name : String) :
    Keyed.lookup TokenInfo.name (codec.latestTokens (codec.kept j)) name =
      Keyed.lookup TokenInfo.name (codec.latestTokens j) name := by
  cases h : Keyed.lookup TokenInfo.name (codec.latestTokens j) name with
  | none =>
    rw [lookup_latestTokens_eq_none_iff] at h ⊢
    exact Set.subset_empty_iff.mp (h ▸ expirations_kept_subset codec j name)
  | some t =>
    obtain ⟨-, hname, hn, he⟩ := mem_of_lookup_latestTokens h
    have hne : (codec.expirations (codec.kept j) name).Nonempty :=
      ⟨t.expiration, t.cookie, cookie_mem_kept h, hname, hn, he⟩
    obtain ⟨t', ht'⟩ := exists_lookup_latestTokens hne
    obtain ⟨hc', hname', -, -⟩ := mem_of_lookup_latestTokens ht'
    have hmem : t'.cookie ∈ (codec.kept j).cookies.filter fun d => d.name = name :=
      List.mem_filter.mpr ⟨hc', decide_eq_true hname'⟩
    rw [filter_kept h] at hmem
    have hinfo := tokenInfo_of_lookup ht'
    rw [List.mem_singleton.mp hmem, tokenInfo_of_lookup h] at hinfo
    rw [ht', hinfo]

theorem mem_latestTokens_kept : t ∈ codec.latestTokens (codec.kept j) ↔
    t ∈ codec.latestTokens j := by
  have h : ∀ k : Jar, t ∈ codec.latestTokens k ↔
      Keyed.lookup TokenInfo.name (codec.latestTokens k) t.name = some t := by
    intro k
    simp [Keyed.lookup_eq_some_iff (nodup_latestTokens codec k)]
  rw [h, h, lookup_latestTokens_kept]

theorem isGreatest_kept : IsGreatest (codec.expirations (codec.kept j) name) e ↔
    IsGreatest (codec.expirations j name) e := by
  simp only [← exists_mem_latestTokens_iff, mem_latestTokens_kept]

theorem allTouched_kept (codec : TokenCodec) (j : Jar) :
    codec.allTouched (codec.kept j) = codec.allTouched j := by
  have hempty : (codec.latestTokens (codec.kept j)).isEmpty = (codec.latestTokens j).isEmpty := by
    rw [Bool.eq_iff_iff, List.isEmpty_iff, List.isEmpty_iff]
    simp only [List.eq_nil_iff_forall_not_mem, mem_latestTokens_kept]
  have hall : ∀ p : TokenInfo → Bool,
      (codec.latestTokens (codec.kept j)).all p = (codec.latestTokens j).all p := by
    intro p
    rw [Bool.eq_iff_iff, List.all_eq_true, List.all_eq_true]
    simp only [mem_latestTokens_kept]
  simp only [allTouched, hempty, hall]

theorem tokenTTL_kept (codec : TokenCodec) (j : Jar) (now : Int64) :
    codec.tokenTTL (codec.kept j) now = codec.tokenTTL j now := by
  have hm : ∀ r, r ∈ codec.remaining (codec.kept j) now ↔ r ∈ codec.remaining j now := by
    intro r
    simp only [remaining, List.mem_map, mem_latestTokens_kept]
  exact tokenTTL_congr_remaining hm

/-- Removing old duplicates keeps exactly the freshest tokens, and everything else. -/
theorem removeOldTokenDuplicates_keepsFreshest (codec : TokenCodec) (j : Jar) :
    KeepsFreshest codec j where
  kept_order := List.filter_sublist
  removed_order := List.filter_sublist
  split := by
    have h := List.filter_append_perm
      (fun c => !isStaleDuplicate c (codec.latestTokens j)) j.cookies
    simpa [kept, removed, removeOldTokenDuplicates, Jar.filter] using h
  others c hc h := mem_kept.mpr ⟨hc, isStaleDuplicate_eq_false h⟩
  freshest name h := by
    obtain ⟨t, ht⟩ := exists_lookup_latestTokens h
    exact ⟨t.cookie, firstFreshest_of_lookup ht, filter_kept ht⟩
  latest := lookup_latestTokens_kept codec j
  touched := allTouched_kept codec j
  lifetime := tokenTTL_kept codec j
  again := by
    apply List.filter_eq_nil_iff.mpr
    intro c hc
    rw [isStaleDuplicate_congr (lookup_latestTokens_kept codec j c.name), (mem_kept.mp hc).2]
    exact Bool.false_ne_true

end TokenCodec

end ProfiNotifications.AuthWorker
