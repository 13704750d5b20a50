import LangId.Knowledge.Build

/-!
# Bundled definitions

The definitions that are used unless others are given: a selection of common languages, rules for
the extensions that several of them share, patterns of paths, and short training texts.
-/
namespace LangId.Bundled

/-- The languages. -/
def languages : List (String × LanguageEntry) := [
  ("C", {
      category := "programming", extensions := [".c", ".h", ".idc"], interpreters := ["tcc"],
      color := some "#555555" }),
  ("C#", {
      category := "programming", extensions := [".cs", ".csx"], aliases := ["csharp", "cs"],
      color := some "#178600" }),
  ("C++", {
      category := "programming",
      extensions := [
        ".cpp", ".c++", ".cc", ".cxx", ".h", ".h++", ".hh", ".hpp", ".hxx", ".inl", ".ipp", ".tpp"],
      aliases := ["cpp"], color := some "#f34b7d" }),
  ("CSS", {
      category := "markup", extensions := [".css"], color := some "#563d7c" }),
  ("Coq", {
      category := "programming", extensions := [".coq", ".v"], color := some "#d0b68c" }),
  ("Dockerfile", {
      category := "programming", extensions := [".dockerfile"],
      filenames := ["Containerfile", "Dockerfile"], aliases := ["Containerfile"],
      color := some "#384d54" }),
  ("Go", {
      category := "programming", extensions := [".go"], aliases := ["golang"],
      color := some "#00ADD8" }),
  ("HTML", {
      category := "markup", extensions := [".html", ".htm", ".xht", ".xhtml"], aliases := ["xhtml"],
      color := some "#e34c26" }),
  ("INI", {
      category := "data", extensions := [".ini", ".cfg", ".prefs"],
      filenames := [".editorconfig", ".flake8", "pylintrc"], aliases := ["dosini"],
      color := some "#d1dbe0" }),
  ("JSON", {
      category := "data", extensions := [".json", ".geojson", ".jsonl", ".webmanifest"],
      filenames := [".arcconfig", "composer.lock", "flake.lock"], aliases := ["geojson", "jsonl"],
      color := some "#292929" }),
  ("Java", {
      category := "programming", extensions := [".java", ".jav"], color := some "#b07219" }),
  ("JavaScript", {
      category := "programming", extensions := [".js", ".cjs", ".jsx", ".mjs"],
      filenames := ["Jakefile"], interpreters := ["node", "nodejs", "qjs"],
      aliases := ["js", "node"], color := some "#f1e05a" }),
  ("Kotlin", {
      category := "programming", extensions := [".kt", ".ktm", ".kts"], color := some "#A97BFF" }),
  ("Lua", {
      category := "programming", extensions := [".lua", ".rockspec"], interpreters := ["lua"],
      color := some "#000080" }),
  ("MATLAB", {
      category := "programming", extensions := [".matlab", ".m"], aliases := ["octave"],
      color := some "#e16737" }),
  ("Makefile", {
      category := "programming", extensions := [".mak", ".make", ".mk", ".mkfile"],
      filenames := ["GNUmakefile", "Kbuild", "Makefile", "makefile"], interpreters := ["make"],
      aliases := ["bsdmake", "make", "mf"], color := some "#427819" }),
  ("Markdown", {
      category := "prose", extensions := [".md", ".markdown", ".mdown", ".mkd"],
      filenames := ["contents.lr"], aliases := ["md", "pandoc"], color := some "#083fa1" }),
  ("Mercury", {
      category := "programming", extensions := [".m", ".moo"], interpreters := ["mmi"],
      color := some "#ff2b2b" }),
  ("Objective-C", {
      category := "programming", extensions := [".m", ".h"],
      aliases := ["obj-c", "objc", "objectivec"], color := some "#438eff" }),
  ("Objective-C++", {
      category := "programming", extensions := [".mm"],
      aliases := ["obj-c++", "objc++", "objectivec++"], color := some "#6866fb" }),
  ("PHP", {
      category := "programming", extensions := [".php", ".phtml"], filenames := [".php_cs"],
      interpreters := ["php"], aliases := ["inc"], color := some "#4F5D95" }),
  ("Perl", {
      category := "programming", extensions := [".pl", ".cgi", ".pm", ".t"],
      filenames := ["Makefile.PL", "cpanfile"], interpreters := ["cperl", "perl"],
      aliases := ["cperl"], color := some "#0298c3" }),
  ("PowerShell", {
      category := "programming", extensions := [".ps1", ".psd1", ".psm1"], interpreters := ["pwsh"],
      aliases := ["posh", "pwsh"], color := some "#012456" }),
  ("Prolog", {
      category := "programming", extensions := [".pl", ".plt", ".pro", ".prolog"],
      interpreters := ["swipl", "yap"], color := some "#74283c" }),
  ("Python", {
      category := "programming", extensions := [".py", ".cgi", ".pyi", ".pyw"],
      filenames := [".gclient", "SConscript", "SConstruct", "Snakefile", "wscript"],
      interpreters := ["python", "python2", "python3", "py"], aliases := ["python3", "rusthon"],
      color := some "#3572A5" }),
  ("R", {
      category := "programming", extensions := [".r", ".rd", ".rsx"], filenames := [".Rprofile"],
      interpreters := ["Rscript"], aliases := ["Rscript", "splus"], color := some "#198CE7" }),
  ("Raku", {
      category := "programming",
      extensions := [".6pl", ".p6", ".pl", ".pl6", ".pm", ".pm6", ".raku", ".rakumod", ".t"],
      interpreters := ["perl6", "raku", "rakudo"], aliases := ["perl6", "perl-6"],
      color := some "#0000fb" }),
  ("Rebol", {
      category := "programming", extensions := [".reb", ".r", ".r2", ".r3", ".rebol"],
      color := some "#358a5b" }),
  ("Ruby", {
      category := "programming", extensions := [".rb", ".gemspec", ".rake", ".ru"],
      filenames := [".irbrc", "Gemfile", "Guardfile", "Rakefile", "Vagrantfile"],
      interpreters := ["ruby", "macruby", "rake", "jruby", "rbx"],
      aliases := ["jruby", "macruby", "rake", "rb", "rbx"], color := some "#701516" }),
  ("Rust", {
      category := "programming", extensions := [".rs", ".rs.in"], aliases := ["rs"],
      color := some "#dea584" }),
  ("SQL", {
      category := "data", extensions := [".sql", ".ddl", ".udf"], color := some "#e38c00" }),
  ("Shell", {
      category := "programming",
      extensions := [".sh", ".bash", ".bats", ".command", ".ksh", ".zsh"],
      filenames := [".bash_aliases", ".bash_profile", ".bashrc", ".profile", ".zshrc", "PKGBUILD"],
      interpreters := ["ash", "bash", "dash", "ksh", "mksh", "sh", "zsh"],
      aliases := ["sh", "shell-script", "bash", "zsh"], color := some "#89e051" }),
  ("TOML", {
      category := "data", extensions := [".toml"],
      filenames := ["Cargo.lock", "Pipfile", "poetry.lock"], color := some "#9c4221" }),
  ("Text", {
      category := "prose", extensions := [".txt", ".fr", ".nb"],
      filenames := ["COPYING", "LICENSE", "README"], aliases := ["fundamental", "plain text"] }),
  ("TypeScript", {
      category := "programming", extensions := [".ts", ".cts", ".mts", ".tsx"],
      interpreters := ["deno", "ts-node"], aliases := ["ts"], color := some "#3178c6" }),
  ("Verilog", {
      category := "programming", extensions := [".v", ".veo"], color := some "#b2b7f8" }),
  ("XML", {
      category := "data",
      extensions := [".xml", ".csproj", ".plist", ".svg", ".ts", ".xsd", ".xsl"],
      filenames := [".classpath", ".project", "App.config", "Web.config", "packages.config"],
      aliases := ["rss", "xsd", "wsdl"], color := some "#0060ac" }),
  ("YAML", {
      category := "data", extensions := [".yml", ".yaml", ".yaml-tmlanguage"],
      filenames := [".clang-format", ".clang-tidy", ".gemrc", "glide.lock", "yarn.lock"],
      aliases := ["yml"], color := some "#cb171e" }),
  ("reStructuredText", {
      category := "prose", extensions := [".rst", ".rest"], aliases := ["rst"],
      color := some "#141414" })]

/-- The patterns that rules refer to by name. -/
def namedPatterns : List (String × OneOrMany) := [
  ("cpp",
    .many ["^\\s*#\\s*include <(cstdint|string|vector|map|list|array|bitset|queue|stack|" ++
            "forward_list|unordered_map|unordered_set|(i|o|io)stream)>",
           "^\\s*template\\s*<",
           "^[ \\t]*(try|constexpr)",
           "^[ \\t]*catch\\s*\\(",
           "^[ \\t]*(class|(using[ \\t]+)?namespace)\\s+\\w+",
           "^[ \\t]*(private|public|protected):$",
           "__has_cpp_attribute|__cplusplus >",
           "std::\\w+"]),
  ("objectivec",
    .one ("^\\s*(@(interface|class|protocol|property|end|synchronised|selector|" ++
           "implementation)\\b|#import\\s+.+\\.h[\">])")),
  ("perl",
    .many ["\\buse\\s+(?:strict\\b|v?5\\b)",
           "^\\s*use\\s+(?:constant|overload)\\b",
           "^\\s*(?:\\*|(?:our\\s*)?@)EXPORT\\s*=",
           "^\\s*package\\s+[^\\W\\d]\\w*(?:::\\w+)*\\s*(?:[;\x7b]|\\sv?\\d)",
           "[\\s$][^\\W\\d]\\w*(?::\\w+)*->[a-zA-Z_\\[(\x7b]"]),
  ("python",
    .one "^\\s*(?:import\\s+\\w+|from\\s+[\\w.]+\\s+import\\b|def\\s+\\w+\\s*\\()"),
  ("raku",
    .one "^\\s*(?:use\\s+v6\\b|\\bmodule\\b|\\b(?:my\\s+)?class\\b)")]

/-- The rules for the extensions that several languages share. -/
def blocks : List BlockEntry := [
  { extensions := [".cgi"],
    rules := [
      { clause := { namedPattern := some "perl" },
        languages := .one "Perl" },
      { clause := { namedPattern := some "python" },
        languages := .one "Python" }] },
  { extensions := [".h"],
    rules := [
      { clause := { namedPattern := some "objectivec" },
        languages := .one "Objective-C" },
      { clause := { namedPattern := some "cpp" },
        languages := .one "C++" },
      { languages := .one "C" }] },
  { extensions := [".m"],
    rules := [
      { clause := { namedPattern := some "objectivec" },
        languages := .one "Objective-C" },
      { clause := { pattern := some (.one ":- module") },
        languages := .one "Mercury" },
      { clause := { pattern := some (.one "^\\s*%") },
        languages := .one "MATLAB" }] },
  { extensions := [".pl"],
    rules := [
      { clause := { pattern := some (.one "^[^#]*:-") },
        languages := .one "Prolog" },
      { languages := .one "Perl",
        further := [{ negativePattern := some (.one "^\\s*use\\s+v6\\b") },
                    { namedPattern := some "perl" }] },
      { clause := { namedPattern := some "raku" },
        languages := .one "Raku" }] },
  { extensions := [".pm"],
    rules := [
      { languages := .one "Perl",
        further := [{ negativePattern := some (.one "^\\s*use\\s+v6\\b") },
                    { namedPattern := some "perl" }] },
      { clause := { namedPattern := some "raku" },
        languages := .one "Raku" }] },
  { extensions := [".pro"],
    rules := [
      { clause := { pattern := some (.one "^[^\\[#]+:-") },
        languages := .one "Prolog" }] },
  { extensions := [".r"],
    rules := [
      { clause := { pattern := some (.one "(?i)\\bRebol\\b") },
        languages := .one "Rebol" },
      { clause := { pattern := some (.one "<-|^\\s*#") },
        languages := .one "R" }] },
  { extensions := [".t"],
    rules := [
      { languages := .one "Perl",
        further := [{ negativePattern := some (.one "^\\s*use\\s+v6\\b") },
                    { namedPattern := some "perl" }] },
      { clause := { pattern := some (.one "^\\s*(?:use\\s+v6\\b|\\bmodule\\b|\\bmy\\s+class\\b)") },
        languages := .one "Raku" }] },
  { extensions := [".ts"],
    rules := [
      { clause := { pattern := some (.one "<TS\\b") },
        languages := .one "XML" },
      { languages := .one "TypeScript" }] },
  { extensions := [".v"],
    rules := [
      { clause := { pattern := some (.one "(?:^|\\s)Require") },
        languages := .one "Coq" },
      { clause := { pattern := some (.one "^[ \\t]*module\\s+[^\\s()]+\\s+\\#?\\(") },
        languages := .one "Verilog" }] }]

/-- Patterns of paths of code that comes from elsewhere. -/
def vendor : List String := [
  "(^|/)cache/",
  "^[Dd]ependencies/",
  "(^|/)dist/",
  "^deps/",
  "(^|/)configure$",
  "(^|/)config\\.guess$",
  "(^|/)config\\.sub$",
  "(^|/)aclocal\\.m4",
  "(^|/)libtool\\.m4",
  "(^|/)ltoptions\\.m4",
  "(^|/)ltsugar\\.m4",
  "(^|/)ltversion\\.m4",
  "(^|/)lt~obsolete\\.m4",
  "(^|/)node_modules/",
  "(^|/)bower_components/",
  "^rebar$",
  "(^|/)erlang\\.mk",
  "(^|/)Godeps/_workspace/",
  "(^|/)bootstrap([^/.]*)(\\..*)?\\.(js|css|less|scss|styl)$",
  "(^|/)font-?awesome\\.(css|less|scss|styl)$",
  "(^|/)jquery([^.]*)\\.js$",
  "(^|/)jquery\\-\\d\\.\\d+(\\.\\d+)?\\.js$",
  "(^|/)\\.?venv/",
  "(^|/)__pycache__/",
  "(^|/)site-packages/",
  "(^|/)\\.tox/",
  "(^|/)vendor/bundle/",
  "(^|/)[Vv]endor/",
  "(^|/)[Vv]endors/",
  "^[Tt]hird[-_]?[Pp]arty/",
  "(^|/)extern(al)?/",
  "(^|/)gradlew$",
  "(^|/)gradlew\\.bat$",
  "(^|/)gradle/wrapper/",
  "(^|/)mvnw$",
  "(^|/)mvnw\\.cmd$",
  "(^|/)\\.mvn/wrapper/",
  "(^|/)\\.git/",
  "(^|/)\\.idea/",
  "(^|/)\\.vscode/",
  "(^|/)\\.github/"]

/-- Patterns of paths of documentation. -/
def documentation : List String := [
  "^[Dd]ocs?/",
  "(^|/)[Dd]ocumentation/",
  "(^|/)[Gg]roovydoc/",
  "(^|/)[Jj]avadoc/",
  "^[Mm]an/",
  "^[Ee]xamples/",
  "^[Dd]emos?/",
  "(^|/)inst/doc/",
  "(^|/)CITATION(\\.cff|(S)?(\\.(bib|md))?)$",
  "(^|/)CHANGE(S|LOG)?(\\.|$)",
  "(^|/)CONTRIBUTING(\\.|$)",
  "(^|/)COPYING(\\.|$)",
  "(^|/)INSTALL(\\.|$)",
  "(^|/)LICEN[CS]E(\\.|$)",
  "(^|/)[Ll]icen[cs]e(\\.|$)",
  "(^|/)README(\\.|$)",
  "(^|/)[Rr]eadme(\\.|$)",
  "^[Ss]amples?/"]

/-- Patterns of paths of generated files. -/
def generated : List String := [
  "\\.min\\.(js|css)$",
  "(^|/)[^/]+-min\\.js$",
  "\\.(js|css)\\.map$",
  "(^|/)package-lock\\.json$",
  "(^|/)npm-shrinkwrap\\.json$",
  "(^|/)yarn\\.lock$",
  "(^|/)pnpm-lock\\.yaml$",
  "(^|/)composer\\.lock$",
  "(^|/)Cargo\\.lock$",
  "(^|/)Gemfile\\.lock$",
  "(^|/)poetry\\.lock$",
  "(^|/)Pipfile\\.lock$",
  "(^|/)go\\.sum$",
  "(^|/)flake\\.lock$",
  "_pb2(_grpc)?\\.py$",
  "\\.pb\\.(go|cc|h)$",
  "(^|/)\\.?coverage(\\.xml)?$",
  "\\.designer\\.(cs|vb)$",
  "(^|/)__generated__/",
  "(^|/)build/generated/"]

/-- A text of some lines. -/
def text (lines : List String) : String := String.join (lines.map (· ++ "\n"))

/-- Training texts. -/
def samples : List (String × List String) := [
  ("C", [
    text [
      "#include <stdio.h>",
      "#include <stdlib.h>",
      "#include <string.h>",
      "",
      "typedef struct node \x7b",
      "    int value;",
      "    struct node *next;",
      "\x7d node_t;",
      "",
      "static node_t *node_new(int value)",
      "\x7b",
      "    node_t *n = malloc(sizeof(*n));",
      "    if (n == NULL) \x7b",
      "        return NULL;",
      "    \x7d",
      "    n->value = value;",
      "    n->next = NULL;",
      "    return n;",
      "\x7d",
      "",
      "int main(int argc, char **argv)",
      "\x7b",
      "    node_t *head = node_new(1);",
      "    printf(\"%d\\n\", head->value);",
      "    free(head);",
      "    return 0;",
      "\x7d"],
    text [
      "#ifndef BUFFER_H",
      "#define BUFFER_H",
      "",
      "#include <stddef.h>",
      "",
      "struct buffer \x7b",
      "    char *data;",
      "    size_t len;",
      "    size_t cap;",
      "\x7d;",
      "",
      "void buffer_init(struct buffer *buf);",
      "int buffer_append(struct buffer *buf, const char *src, size_t n);",
      "void buffer_free(struct buffer *buf);",
      "",
      "#endif /* BUFFER_H */"]]),
  ("C++", [
    text [
      "#include <iostream>",
      "#include <string>",
      "#include <vector>",
      "",
      "namespace geometry \x7b",
      "",
      "class Shape \x7b",
      "public:",
      "    virtual ~Shape() = default;",
      "    virtual double area() const = 0;",
      "\x7d;",
      "",
      "class Square : public Shape \x7b",
      "public:",
      "    explicit Square(double side) : side_(side) \x7b\x7d",
      "    double area() const override \x7b return side_ * side_; \x7d",
      "private:",
      "    double side_;",
      "\x7d;",
      "",
      "\x7d  // namespace geometry",
      "",
      "int main() \x7b",
      "    std::vector<std::unique_ptr<geometry::Shape>> shapes;",
      "    shapes.push_back(std::make_unique<geometry::Square>(2.0));",
      "    for (const auto& shape : shapes) \x7b",
      "        std::cout << shape->area() << std::endl;",
      "    \x7d",
      "    return 0;",
      "\x7d"],
    text [
      "#pragma once",
      "",
      "#include <map>",
      "#include <string>",
      "",
      "template <typename T>",
      "class Registry \x7b",
      "public:",
      "    void add(const std::string& key, T value) \x7b items_[key] = value; \x7d",
      "    const T* find(const std::string& key) const \x7b",
      "        auto it = items_.find(key);",
      "        return it == items_.end() ? nullptr : &it->second;",
      "    \x7d",
      "private:",
      "    std::map<std::string, T> items_;",
      "\x7d;"]]),
  ("Objective-C", [
    text [
      "#import <Foundation/Foundation.h>",
      "#import \"Person.h\"",
      "",
      "@interface Person : NSObject",
      "@property (nonatomic, copy) NSString *name;",
      "@property (nonatomic, assign) NSInteger age;",
      "- (instancetype)initWithName:(NSString *)name age:(NSInteger)age;",
      "@end",
      "",
      "@implementation Person",
      "",
      "- (instancetype)initWithName:(NSString *)name age:(NSInteger)age \x7b",
      "    self = [super init];",
      "    if (self) \x7b",
      "        _name = [name copy];",
      "        _age = age;",
      "    \x7d",
      "    return self;",
      "\x7d",
      "",
      "- (NSString *)description \x7b",
      "    return [NSString stringWithFormat:@\"%@ (%ld)\", self.name, (long)self.age];",
      "\x7d",
      "",
      "@end"],
    text [
      "#import <UIKit/UIKit.h>",
      "",
      "@protocol ListViewDelegate <NSObject>",
      "- (void)listView:(id)listView didSelectItemAtIndex:(NSUInteger)index;",
      "@end",
      "",
      "@interface ListViewController : UIViewController <UITableViewDataSource>",
      "@property (nonatomic, weak) id<ListViewDelegate> delegate;",
      "@property (nonatomic, strong) NSArray *items;",
      "@end"]]),
  ("Mercury", [
    text [
      ":- module hello.",
      ":- interface.",
      ":- import_module io.",
      ":- pred main(io::di, io::uo) is det.",
      ":- implementation.",
      ":- import_module list, string.",
      "",
      "main(!IO) :-",
      "    io.write_string(\"Hello, world\\n\", !IO),",
      "    Xs = [1, 2, 3],",
      "    list.foldl(print_item, Xs, !IO).",
      "",
      ":- pred print_item(int::in, io::di, io::uo) is det.",
      "print_item(X, !IO) :-",
      "    io.format(\"%d\\n\", [i(X)], !IO)."]]),
  ("MATLAB", [
    text [
      "function result = moving_average(data, window)",
      "% MOVING_AVERAGE Smooth a vector with a sliding window.",
      "%   result = moving_average(data, window)",
      "n = numel(data);",
      "result = zeros(1, n);",
      "for i = 1:n",
      "    lo = max(1, i - window + 1);",
      "    result(i) = mean(data(lo:i));",
      "end",
      "end"],
    text [
      "% Plot a damped sine wave",
      "t = linspace(0, 10, 500);",
      "y = exp(-0.3 * t) .* sin(2 * pi * t);",
      "figure;",
      "plot(t, y, 'LineWidth', 2);",
      "xlabel('time');",
      "ylabel('amplitude');",
      "disp(max(y));"]]),
  ("Perl", [
    text [
      "#!/usr/bin/perl",
      "use strict;",
      "use warnings;",
      "",
      "my %count;",
      "while (my $line = <STDIN>) \x7b",
      "    chomp $line;",
      "    foreach my $word (split /\\s+/, $line) \x7b",
      "        $count\x7blc $word\x7d++;",
      "    \x7d",
      "\x7d",
      "foreach my $word (sort \x7b $count\x7b$b\x7d <=> $count\x7b$a\x7d \x7d keys %count) \x7b",
      "    printf \"%-20s %d\\n\", $word, $count\x7b$word\x7d;",
      "\x7d"],
    text [
      "package My::Counter;",
      "use strict;",
      "use warnings;",
      "",
      "sub new \x7b",
      "    my ($class, %args) = @_;",
      "    my $self = \x7b count => $args\x7bstart\x7d || 0 \x7d;",
      "    return bless $self, $class;",
      "\x7d",
      "",
      "sub increment \x7b",
      "    my $self = shift;",
      "    return ++$self->\x7bcount\x7d;",
      "\x7d",
      "",
      "1;"]]),
  ("Prolog", [
    text [
      ":- use_module(library(lists)).",
      "",
      "parent(tom, bob).",
      "parent(bob, ann).",
      "parent(bob, pat).",
      "",
      "grandparent(X, Z) :-",
      "    parent(X, Y),",
      "    parent(Y, Z).",
      "",
      "count([], 0).",
      "count([_|T], N) :-",
      "    count(T, N0),",
      "    N is N0 + 1."]]),
  ("Python", [
    text [
      "#!/usr/bin/env python3",
      "import os",
      "import sys",
      "",
      "",
      "def main(argv):",
      "    for name in sorted(os.listdir(argv[1])):",
      "        path = os.path.join(argv[1], name)",
      "        if os.path.isfile(path):",
      "            print(name, os.path.getsize(path))",
      "    return 0",
      "",
      "",
      "if __name__ == \"__main__\":",
      "    sys.exit(main(sys.argv))"]]),
  ("R", [
    text [
      "library(stats)",
      "",
      "# Fit a linear model and summarise it",
      "data <- read.csv(\"measurements.csv\", header = TRUE)",
      "fit <- lm(weight ~ height, data = data)",
      "summary(fit)",
      "",
      "scale_values <- function(x) \x7b",
      "  (x - mean(x)) / sd(x)",
      "\x7d",
      "data$scaled <- scale_values(data$height)",
      "print(head(data))"]]),
  ("Raku", [
    text [
      "use v6;",
      "",
      "class Point \x7b",
      "    has $.x = 0;",
      "    has $.y = 0;",
      "    method distance(Point $other --> Numeric) \x7b",
      "        sqrt(($!x - $other.x) ** 2 + ($!y - $other.y) ** 2)",
      "    \x7d",
      "\x7d",
      "",
      "my $p = Point.new(x => 3, y => 4);",
      "say $p.distance(Point.new);",
      "for 1..3 -> $i \x7b",
      "    say \"item $i\";",
      "\x7d"]]),
  ("Rebol", [
    text [
      "REBOL [",
      "    Title: \"Greeting\"",
      "    Date: 1-Jan-2020",
      "]",
      "",
      "greet: func [name [string!]] [",
      "    print [\"Hello\" name]",
      "]",
      "",
      "foreach person [\"Ann\" \"Bob\"] [",
      "    greet person",
      "]"]]),
  ("TypeScript", [
    text [
      "import \x7b readFile \x7d from \"fs/promises\";",
      "",
      "export interface User \x7b",
      "  id: number;",
      "  name: string;",
      "  email?: string;",
      "\x7d",
      "",
      "export async function loadUsers(path: string): Promise<User[]> \x7b",
      "  const raw = await readFile(path, \"utf-8\");",
      "  const users: User[] = JSON.parse(raw);",
      "  return users.filter((user) => user.name.length > 0);",
      "\x7d",
      "",
      "export class UserCache \x7b",
      "  private readonly users = new Map<number, User>();",
      "",
      "  add(user: User): void \x7b",
      "    this.users.set(user.id, user);",
      "  \x7d",
      "\x7d"]]),
  ("XML", [
    text [
      "<?xml version=\"1.0\" encoding=\"utf-8\"?>",
      "<!DOCTYPE TS>",
      "<TS version=\"2.1\" language=\"de_DE\">",
      "<context>",
      "    <name>MainWindow</name>",
      "    <message>",
      "        <source>Open file</source>",
      "        <translation>Datei öffnen</translation>",
      "    </message>",
      "</context>",
      "</TS>"]]),
  ("Coq", [
    text [
      "Require Import Arith.",
      "",
      "Fixpoint sum (n : nat) : nat :=",
      "  match n with",
      "  | O => O",
      "  | S m => n + sum m",
      "  end.",
      "",
      "Theorem sum_zero : sum 0 = 0.",
      "Proof.",
      "  simpl. reflexivity.",
      "Qed."]]),
  ("Verilog", [
    text [
      "module counter (",
      "    input wire clk,",
      "    input wire reset,",
      "    output reg [7:0] count",
      ");",
      "    always @(posedge clk or posedge reset) begin",
      "        if (reset)",
      "            count <= 8'd0;",
      "        else",
      "            count <= count + 1;",
      "    end",
      "endmodule"]])]

/-- All bundled definitions. -/
def payload : Payload where
  languages
  heuristics := ⟨blocks, namedPatterns⟩
  vendor
  documentation
  generated
  samples

end LangId.Bundled

namespace LangId

/-- The knowledge base of the bundled definitions. -/
def KnowledgeBase.bundled : Except BuildError KnowledgeBase := Bundled.payload.build

end LangId
