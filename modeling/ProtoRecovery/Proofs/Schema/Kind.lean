import ProtoRecovery.Schema.Kind

/-! # Codes and keywords of types and labels stand for one another -/
namespace ProtoRecovery.Schema

namespace Scalar

@[simp] theorem ofCode?_code (s : Scalar) : ofCode? s.code = some s := by cases s <;> rfl

theorem code_of_ofCode? {code : Int32} {s : Scalar} (h : ofCode? code = some s) : s.code = code := by
  simpa using List.find?_some h

theorem keyword_of_ofKeyword? {word : Bytes} {s : Scalar} (h : ofKeyword? word = some s) : s.keyword = word := by
  simpa using List.find?_some h

@[simp] theorem ofKeyword?_keyword (s : Scalar) : ofKeyword? s.keyword = some s := by cases s <;> rfl

end Scalar

namespace Label

@[simp] theorem ofCode?_code (l : Label) : ofCode? l.code = some l := by cases l <;> rfl

@[simp] theorem ofKeyword?_keyword (l : Label) : ofKeyword? l.keyword = some l := by cases l <;> rfl

end Label
end ProtoRecovery.Schema
