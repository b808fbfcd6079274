import CodeOutline.Language.Basic
import CodeOutline.Symbol.Kind

/-! # Declaring nodes

For each language, the types of syntax nodes that declare a symbol and the kind of symbol
they declare.  A node whose type is not listed declares nothing itself.  A few types also
stand for a mere mention of the thing they name, and declare it only when they have a body.
-/

namespace CodeOutline

structure NodeRule where
  nodeType : String
  kind : Kind
  /-- Whether only a node with a body declares something. -/
  needsBody : Bool := false
deriving DecidableEq, Repr

namespace Language

def rules : Language → List NodeRule
  | rust =>
    [{ nodeType := "mod_item", kind := .moduleDecl },
     { nodeType := "struct_item", kind := .struct },
     { nodeType := "union_item", kind := .struct },
     { nodeType := "enum_item", kind := .enum },
     { nodeType := "enum_variant", kind := .enumMember },
     { nodeType := "trait_item", kind := .interface },
     { nodeType := "impl_item", kind := .object },
     { nodeType := "function_item", kind := .function },
     { nodeType := "function_signature_item", kind := .function },
     { nodeType := "field_declaration", kind := .field },
     { nodeType := "const_item", kind := .constant },
     { nodeType := "static_item", kind := .variableDecl },
     { nodeType := "type_item", kind := .typeParameter },
     { nodeType := "macro_definition", kind := .function }]
  | cpp =>
    [{ nodeType := "namespace_definition", kind := .namespaceDecl },
     { nodeType := "class_specifier", kind := .classDecl, needsBody := true },
     { nodeType := "struct_specifier", kind := .struct, needsBody := true },
     { nodeType := "union_specifier", kind := .struct, needsBody := true },
     { nodeType := "enum_specifier", kind := .enum, needsBody := true },
     { nodeType := "enumerator", kind := .enumMember },
     { nodeType := "function_definition", kind := .function },
     { nodeType := "field_declaration", kind := .field }]
  | java =>
    [{ nodeType := "class_declaration", kind := .classDecl },
     { nodeType := "record_declaration", kind := .classDecl },
     { nodeType := "interface_declaration", kind := .interface },
     { nodeType := "annotation_type_declaration", kind := .interface },
     { nodeType := "enum_declaration", kind := .enum },
     { nodeType := "enum_constant", kind := .enumMember },
     { nodeType := "constructor_declaration", kind := .constructor },
     { nodeType := "method_declaration", kind := .method },
     { nodeType := "field_declaration", kind := .field }]
  | kotlin =>
    [{ nodeType := "class_declaration", kind := .classDecl },
     { nodeType := "object_declaration", kind := .object },
     { nodeType := "function_declaration", kind := .function },
     { nodeType := "property_declaration", kind := .property },
     { nodeType := "enum_entry", kind := .enumMember }]
  | cSharp =>
    [{ nodeType := "namespace_declaration", kind := .namespaceDecl },
     { nodeType := "file_scoped_namespace_declaration", kind := .namespaceDecl },
     { nodeType := "class_declaration", kind := .classDecl },
     { nodeType := "record_declaration", kind := .classDecl },
     { nodeType := "struct_declaration", kind := .struct },
     { nodeType := "interface_declaration", kind := .interface },
     { nodeType := "enum_declaration", kind := .enum },
     { nodeType := "enum_member_declaration", kind := .enumMember },
     { nodeType := "constructor_declaration", kind := .constructor },
     { nodeType := "method_declaration", kind := .method },
     { nodeType := "property_declaration", kind := .property },
     { nodeType := "field_declaration", kind := .field },
     { nodeType := "event_field_declaration", kind := .event }]
  | typeScript =>
    [{ nodeType := "internal_module", kind := .namespaceDecl },
     { nodeType := "module", kind := .moduleDecl },
     { nodeType := "class_declaration", kind := .classDecl },
     { nodeType := "abstract_class_declaration", kind := .classDecl },
     { nodeType := "interface_declaration", kind := .interface },
     { nodeType := "enum_declaration", kind := .enum },
     { nodeType := "enum_assignment", kind := .enumMember },
     { nodeType := "function_declaration", kind := .function },
     { nodeType := "generator_function_declaration", kind := .function },
     { nodeType := "method_definition", kind := .method },
     { nodeType := "method_signature", kind := .method },
     { nodeType := "abstract_method_signature", kind := .method },
     { nodeType := "public_field_definition", kind := .field },
     { nodeType := "property_signature", kind := .property },
     { nodeType := "variable_declarator", kind := .variableDecl }]
  | javaScript =>
    [{ nodeType := "class_declaration", kind := .classDecl },
     { nodeType := "function_declaration", kind := .function },
     { nodeType := "generator_function_declaration", kind := .function },
     { nodeType := "method_definition", kind := .method },
     { nodeType := "field_definition", kind := .field },
     { nodeType := "variable_declarator", kind := .variableDecl }]
  | python =>
    [{ nodeType := "class_definition", kind := .classDecl },
     { nodeType := "function_definition", kind := .function }]
  | ruby =>
    [{ nodeType := "module", kind := .moduleDecl },
     { nodeType := "class", kind := .classDecl },
     { nodeType := "method", kind := .method },
     { nodeType := "singleton_method", kind := .method }]
  | php =>
    [{ nodeType := "namespace_definition", kind := .namespaceDecl },
     { nodeType := "class_declaration", kind := .classDecl },
     { nodeType := "interface_declaration", kind := .interface },
     { nodeType := "trait_declaration", kind := .interface },
     { nodeType := "enum_declaration", kind := .enum },
     { nodeType := "enum_case", kind := .enumMember },
     { nodeType := "function_definition", kind := .function },
     { nodeType := "method_declaration", kind := .method },
     { nodeType := "property_declaration", kind := .property },
     { nodeType := "const_declaration", kind := .constant }]
  | lua =>
    [{ nodeType := "function_declaration", kind := .function }]
  | bash =>
    [{ nodeType := "function_definition", kind := .function }]
  | go =>
    [{ nodeType := "function_declaration", kind := .function },
     { nodeType := "method_declaration", kind := .method },
     { nodeType := "type_spec", kind := .struct },
     { nodeType := "field_declaration", kind := .field },
     { nodeType := "method_elem", kind := .method },
     { nodeType := "method_spec", kind := .method },
     { nodeType := "const_spec", kind := .constant },
     { nodeType := "var_spec", kind := .variableDecl }]
  | unknown => []

def rule? (language : Language) (nodeType : String) : Option NodeRule :=
  language.rules.find? fun rule => rule.nodeType == nodeType

end Language

end CodeOutline
